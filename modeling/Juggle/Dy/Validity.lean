import Juggle.Dy.Ownership
import Juggle.Dy.Unwinding

/-! How long a handle reaches its wheel, what `lock` does to the handles and to the tasks,
and where every scheduler ends. -/
namespace Juggle.Dy
open Juggle.Sharing Juggle.Runs

namespace Wheel

/-- The task in hand is not a suspended one. -/
def Awake (s : Wheel) : Prop :=
  ∀ key tid, s.pc.subject = some (key, tid) → ∀ task, s.get key = some task →
    task.stopReason ≠ .suspended

/-- Only polls and wakers have touched the tasks since the wheel was as in `before`. -/
structure Untouched (before s : Wheel) : Prop where
  con : Consistent s
  kept : ∀ key task, s.get key = some task → ∃ old, before.get key = some old ∧
    old.tid = task.tid ∧ old.name = task.name ∧ old.stopReason = task.stopReason
  asleep : ∀ key old, before.get key = some old → old.stopReason = .suspended →
    ∃ task, s.get key = some task ∧ task.tid = old.tid ∧ task.stopReason = .suspended
  awake : s.Awake

theorem awake_resting {s : Wheel} (resting : s.resting = true) : s.Awake := by
  intro key tid subject
  unfold Wheel.resting at resting
  split at resting
  · rename_i pc
    rw [pc] at subject
    cases subject
  · rename_i pc
    rw [pc] at subject
    cases subject
  · cases resting

theorem untouched_self {s : Wheel} (con : Consistent s) (awake : s.Awake) : Untouched s s where
  con := con
  kept _ task found := ⟨task, found, rfl, rfl, rfl⟩
  asleep _ old found held := ⟨old, found, rfl, held⟩
  awake := awake

section Step
variable {before s t : Wheel} {e : Event} {key : TaskKey}

/-- What a direct event does to the task at a key. -/
theorem direct_look (direct : e.direct = true) (look : Look s e t key) {task : DynamicFuture}
    (found : t.get key = some task) : ∃ old, s.get key = some old ∧
      old.tid = task.tid ∧ old.name = task.name ∧ old.stopReason = task.stopReason := by
  cases look with
  | same eq => exact ⟨task, eq ▸ found, rfl, rfl, rfl⟩
  | spawn params event answer fresh eq tids =>
    rw [event] at direct
    cases direct
  | reason old r held eq request =>
    rcases request with ⟨-, event⟩ | ⟨-, event⟩ | ⟨-, event⟩ <;> rw [event] at direct <;> cases direct
  | wake target old here held eq event =>
    rw [eq] at found
    cases found
    exact ⟨old, held, rfl, rfl, rfl⟩
  | pollBegin b tid old event pc held eq pc' =>
    rw [eq] at found
    cases found
    exact ⟨old, held, rfl, rfl, rfl⟩
  | pollEnd b tid event pc eq =>
    rw [eq] at found
    obtain ⟨old, held, rfl⟩ := Option.map_eq_some_iff.mp found
    exact ⟨old, held, rfl, rfl, rfl⟩
  | remove b tid old event pc held eq =>
    rw [eq] at found
    cases found

/-- A direct event removes no task but the one in hand. -/
theorem direct_stays (direct : e.direct = true) (look : Look s e t key) {old : DynamicFuture}
    (found : s.get key = some old) (spared : ∀ b tid, e = .run → s.pc ≠ .removing b key tid) :
    ∃ task, t.get key = some task ∧ task.tid = old.tid ∧ task.stopReason = old.stopReason := by
  cases look with
  | same eq => exact ⟨old, eq.trans found, rfl, rfl⟩
  | spawn params event answer fresh eq tids =>
    rw [event] at direct
    cases direct
  | reason task r held eq request =>
    rcases request with ⟨-, event⟩ | ⟨-, event⟩ | ⟨-, event⟩ <;> rw [event] at direct <;> cases direct
  | wake target task here held eq event =>
    cases found.symm.trans held
    exact ⟨_, eq, rfl, rfl⟩
  | pollBegin b tid task event pc held eq pc' =>
    cases found.symm.trans held
    exact ⟨_, eq, rfl, rfl⟩
  | pollEnd b tid event pc eq =>
    rw [found] at eq
    exact ⟨_, eq, rfl, rfl⟩
  | remove b tid task event pc held eq => exact absurd pc (spared b tid event)

/-- The sweep takes a task in hand because it may be polled or is cancelled. -/
theorem awake_step (con : Consistent s) (awake : s.Awake) (direct : e.direct = true)
    (h : s.step e = some t) : t.Awake := by
  have change := step_change con.wf h
  intro key tid subject task found
  obtain ⟨old, held, identity, -, same⟩ := direct_look direct (change.look key) found
  rw [← same]
  cases step_move con.wf h with
  | stay pc' beats quiet => exact awake key tid (pc' ▸ subject) old held
  | choose b k task' event pc inside found' reason runnable pc' beats =>
    rw [pc'] at subject
    cases subject
    cases held.symm.trans found'
    simp [reason]
  | condemn b k task' event pc inside found' reason pc' beats =>
    rw [pc'] at subject
    cases subject
    cases held.symm.trans found'
    simp [reason]
  | pollBegin b k tid' event pc pc' beats =>
    rw [pc'] at subject
    cases subject
    exact awake key tid (by rw [pc]; rfl) old held
  | ready b k tid' event pc pc' beats =>
    rw [pc'] at subject
    cases subject
    exact awake key tid (by rw [pc]; rfl) old held
  | ended b k event pc past ended beats =>
    generalize t.pc = pc' at ended subject
    cases ended <;> cases subject
  | leave v pc pc' | note b k tid' c event pc pc' | enter w event pc pc' | begins second event begins pc'
  | skip b k event pc inside rest pc' | pending b k tid' event pc pc' | removed b k tid' tid'' event pc pc'
  | dropped b k tid' event pc pc' | answer finished event pc pc' | unwound event pc'
  | broken event lost pc' =>
    rw [pc'] at subject
    cases subject

theorem untouched_step (un : Untouched before s) (direct : e.direct = true) (h : s.step e = some t) :
    Untouched before t := by
  have change := step_change un.con.wf h
  refine ⟨step_consistent un.con h, ?_, ?_, awake_step un.con un.awake direct h⟩
  · intro key task found
    obtain ⟨mid, held, identity, name, reason⟩ := direct_look direct (change.look key) found
    obtain ⟨old, first, identity', name', reason'⟩ := un.kept key mid held
    exact ⟨old, first, identity'.trans identity, name'.trans name, reason'.trans reason⟩
  · intro key old first held
    obtain ⟨mid, there, identity, asleep⟩ := un.asleep key old first held
    have spared : ∀ b tid, e = .run → s.pc ≠ .removing b key tid := fun b tid _ pc =>
      un.awake key tid (by rw [pc]; rfl) mid there asleep
    obtain ⟨task, found, identity', reason⟩ :=
      direct_stays direct (change.look key) there spared
    exact ⟨task, found, identity'.trans identity, reason.trans asleep⟩

end Step

end Wheel

namespace Program
section Step
variable {s t : Program} {e : Event} {p q : Ptr} {pins : List Ptr}

theorem Holds.account (holds : s.Holds [] []) : Owned s.heap s.strong s.weak := holds.owned

theorem isValid_iff (holds : s.Holds [] []) (held : p ∈ s.strong ++ s.weak) :
    s.isValid p = true ↔ p ∈ s.strong := by
  rw [isValid, holds.account.strongCount_eq held, decide_eq_true_eq, ← List.count_pos_iff]
  exact Nat.pos_iff_ne_zero.symm

/-- A wheel object is made for a new allocation, and a call for one that is shared. -/
structure Grows (s t : Program) : Prop where
  births : s.heap.births ≤ t.heap.births
  wheels : ∀ q ∈ t.wheels, q ∈ s.wheels ∨ q.birth = s.heap.births
  running : t.running ⊆ s.strong

theorem Grows.strong (grows : Grows s t) : ∀ q ∈ t.strong, q ∈ s.strong ∨ q.birth = s.heap.births := by
  intro q hq
  rcases List.mem_append.mp hq with wheel | call
  · exact (grows.wheels q wheel).imp_left (List.mem_append_left _)
  · exact Or.inl (grows.running call)

theorem Grows.less (births : t.heap.births = s.heap.births) (wheels : t.wheels ⊆ s.wheels)
    (running : t.running ⊆ s.strong) : Grows s t :=
  ⟨Nat.le_of_eq births.symm, fun _ hq => Or.inl (wheels hq), running⟩

theorem Grows.quiet (births : t.heap.births = s.heap.births) (wheels : t.wheels = s.wheels)
    (calls : t.calls = s.calls) : Grows s t :=
  .less births (wheels ▸ List.Subset.refl _) (by
    rw [Program.running, calls]
    exact List.subset_append_right _ _)

theorem fromInner_grows {alg : Algorithm} {addr : Addr} (taken : s.fromInner alg addr = some t) :
    Grows s t := by
  obtain ⟨⟨p, heap⟩, made, rfl⟩ := Option.map_eq_some_iff.mp taken
  obtain ⟨birth, births⟩ := Heap.alloc_births made
  refine ⟨births ▸ Nat.le_succ _, fun q hq => ?_, List.subset_append_right _ _⟩
  rcases List.mem_cons.mp hq with rfl | hq
  · exact Or.inr birth
  · exact Or.inl hq

theorem unmake_grows (s : Program) (p : Ptr) : Grows s (s.unmake p).2 :=
  .less (by simp [unmake]) List.erase_subset (List.subset_append_right _ _)

theorem upgraded_strong {heap : Heap Algorithm} (holds : s.Holds [] []) (hp : p ∈ s.weak)
    (taken : s.heap.upgrade p = some heap) : p ∈ s.strong := by
  by_contra gone
  have zero := holds.account.strongCount_eq (List.mem_append_right s.strong hp)
  rw [List.count_eq_zero.mpr gone] at zero
  rw [Heap.upgrade, if_pos zero] at taken
  cases taken

theorem grip_grows (holds : s.Holds [] []) {r : Program} (grip : Grip s p pins r) :
    r.heap.births = s.heap.births ∧ r.wheels = s.wheels ∧ pins ⊆ s.strong := by
  cases grip with
  | there alive => exact ⟨rfl, rfl, List.nil_subset _⟩
  | upgraded heap held taken =>
    exact ⟨Heap.upgrade_births taken, rfl,
      List.cons_subset.mpr ⟨upgraded_strong holds held taken, List.nil_subset _⟩⟩

theorem worked_grows (holds : s.Holds [] []) (work : Worked s p pins t) :
    Grows s t ∧ ∀ q, q ∈ pins ++ t.strong ↔ q ∈ s.strong := by
  obtain ⟨calls, before, r, m, e, grip, acted, same, -, -⟩ := work
  obtain ⟨births, wheels, sub⟩ := grip_grows holds grip
  obtain ⟨_, _, -, -, rfl⟩ := act_spec acted
  have all : ∀ q, q ∈ pins ++ (s.wheels ++ calls.map Running.ptr) ↔ q ∈ s.strong := fun q => by
    rw [← same.mem_iff, List.mem_append]
    exact ⟨fun hq => hq.elim (fun here => sub here) id, Or.inr⟩
  refine ⟨.less births (wheels ▸ List.Subset.refl _) fun q hq => ?_, fun q => ?_⟩
  · exact (all q).mp (List.mem_append_right _ (List.mem_append_right _ hq))
  · rw [← all q]
    show q ∈ pins ++ (r.wheels ++ calls.map Running.ptr) ↔ _
    rw [wheels]

theorem step_grows (holds : s.Holds [] []) (taken : s.step e = some t) : Grows s t := by
  cases step_cases taken with
  | refused => exact .quiet rfl rfl rfl
  | new addr t made =>
    have grows := fromInner_grows made
    exact ⟨grows.births, grows.wheels, grows.running⟩
  | unlock i alg addr t here made =>
    have grows := fromInner_grows made
    exact ⟨grows.births, grows.wheels, grows.running⟩
  | clone p held => exact .quiet rfl rfl rfl
  | dropHandle p held => exact .quiet rfl rfl rfl
  | worked p t work => exact (worked_grows holds work).1
  | returned p m work =>
    have grows := (worked_grows holds work).1
    exact ⟨Nat.le_trans grows.births (Nat.le_of_eq (Heap.births_dropStrong m.heap p).symm),
      grows.wheels, grows.running⟩
  | directLocked i e alg w here direct unwound stepped => exact .quiet rfl rfl rfl
  | lock p wheel resting =>
    have grows := unmake_grows s p
    exact ⟨grows.births, grows.wheels, grows.running⟩
  | drop p wheel =>
    have grows := unmake_grows s p
    exact ⟨grows.births, grows.wheels, grows.running⟩
  | dropLocked i alg here => exact .quiet rfl rfl rfl

/-- No strong pointer is left for the allocation, and none will be made. -/
def Dead (s : Program) (p : Ptr) : Prop := p.birth < s.heap.births ∧ p ∉ s.strong

theorem dead_step (holds : s.Holds [] []) (dead : s.Dead p) (taken : s.step e = some t) : t.Dead p := by
  have grows := step_grows holds taken
  refine ⟨Nat.lt_of_lt_of_le dead.1 grows.births, fun alive => ?_⟩
  rcases grows.strong p alive with before | new
  · exact dead.2 before
  · exact Nat.lt_irrefl _ (new ▸ dead.1)

/-! What becomes of a shared scheduler. -/

/-- Where the scheduler that `p` led to is after the step. -/
inductive Fate (s t : Program) (p : Ptr) (n : Nat) : Prop where
  | shared (alive : p ∈ t.strong) (alg : Algorithm) (value : t.heap.value p = some alg)
      (same : alg.id = n)
  | destroyed (gone : p ∉ t.strong) (last : n ∈ t.destroyed.map Algorithm.id)
  | locked (wheel : p ∈ s.wheels)

theorem Fate.stays {n : Nat} {alg : Algorithm} (value : s.heap.value p = some alg) (same : alg.id = n)
    (alive : p ∈ t.strong) (kept : t.heap.value p = s.heap.value p) : Fate s t p n :=
  .shared alive alg (kept.trans value) same

theorem worked_value {alg : Algorithm} (holds : s.Holds [] []) (hp : p ∈ s.strong)
    (value : s.heap.value p = some alg) (work : Worked s q pins t) :
    ∃ alg', t.heap.value p = some alg' ∧ alg'.id = alg.id := by
  obtain ⟨calls, before, r, m, e, grip, acted, -, -, -⟩ := work
  obtain ⟨holds', hq, -⟩ := grip_holds holds grip
  obtain ⟨alg', w, value', -, rfl⟩ := act_spec acted
  have value : r.heap.value p = some alg := by
    cases grip with
    | there alive => exact value
    | upgraded heap held taken => exact (Owned.value_upgrade taken p).trans value
  have hp' : p ∈ before ++ r.strong := by
    cases grip <;> exact List.mem_append_right _ hp
  have eq := holds'.owned.value_modify (List.mem_append_left r.weak hq) (fun _ => ⟨alg'.id, w⟩)
    (List.mem_append_left r.weak hp')
  show ∃ alg'', (r.heap.modify q _).value p = some alg'' ∧ _
  rw [eq]
  split
  · rename_i here
    subst here
    cases value.symm.trans value'
    exact ⟨⟨alg.id, w⟩, congrArg (Option.map _) value, rfl⟩
  · exact ⟨alg, value, rfl⟩

/-- The end of a call leaves the scheduler shared, or it was the last to hold it. -/
theorem release_fate {n : Nat} {alg : Algorithm} {r : Program} (holds : r.Holds [q] [])
    (hp : p ∈ q :: r.strong) (value : r.heap.value p = some alg) (same : alg.id = n) :
    Fate s (r.release q) p n := by
  by_cases alive : p ∈ r.strong
  · exact .shared alive alg ((holds.owned.value_dropStrong alive).trans value) same
  · have here : p = q := by
      rcases List.mem_cons.mp hp with here | there
      · exact here
      · exact absurd there alive
    subst here
    refine .destroyed alive ?_
    have out : (r.heap.dropStrong p).1 = if p ∈ r.strong then none else r.heap.value p :=
      holds.owned.dropStrong_value
    rw [if_neg alive, value] at out
    show n ∈ ((r.heap.dropStrong p).1.toList ++ r.destroyed).map Algorithm.id
    rw [out]
    exact same ▸ List.mem_cons_self

theorem unmake_fate {alg : Algorithm} (holds : s.Holds [] []) (wheel : q ∈ s.wheels)
    (hp : p ∈ s.strong) (value : s.heap.value p = some alg) :
    (p ∈ (s.unmake q).2.strong ∧ (s.unmake q).2.heap.value p = some alg) ∨
      (p = q ∧ p ∉ (s.unmake q).2.strong ∧ (s.unmake q).1 = some alg) := by
  obtain ⟨-, out, gone⟩ := unmake_spec holds wheel
  have strongs : s.strong.Perm (q :: (s.wheels.erase q ++ s.running)) :=
    (List.perm_cons_erase wheel).append_right s.running
  have weaks : s.weak.Perm (q :: (s.wheels.erase q ++ s.handles)) :=
    (List.perm_cons_erase wheel).append_right s.handles
  have owned := holds.account.perm strongs weaks
  by_cases alive : p ∈ s.wheels.erase q ++ s.running
  · refine Or.inl ⟨alive, ?_⟩
    have member : q ∈ (s.wheels.erase q ++ s.running) ++ q :: (s.wheels.erase q ++ s.handles) :=
      List.mem_append_right _ List.mem_cons_self
    exact (owned.dropStrong.value_dropWeak member p).trans ((owned.value_dropStrong alive).trans value)
  · have here : p = q := by
      rcases List.mem_cons.mp (strongs.mem_iff.mp hp) with here | there
      · exact here
      · exact absurd there alive
    subst here
    have idle : p ∉ s.running := fun call => alive (List.mem_append_right _ call)
    rw [if_neg idle, value] at out
    exact Or.inr ⟨rfl, alive, out⟩

theorem fromInner_fate {n : Nat} {alg alg' : Algorithm} {addr : Addr} {r : Program}
    (owned : Owned r.heap r.strong r.weak) (hp : p ∈ r.strong) (value : r.heap.value p = some alg)
    (same : alg.id = n) (taken : r.fromInner alg' addr = some t) : Fate s t p n := by
  obtain ⟨⟨q, heap⟩, made, rfl⟩ := Option.map_eq_some_iff.mp taken
  refine .shared (List.mem_cons_of_mem q hp) alg ?_ same
  exact (Owned.value_addWeak heap q p).trans
    ((owned.value_alloc made (List.mem_append_left r.weak hp)).trans value)

theorem step_fate {n : Nat} {alg : Algorithm} (holds : s.Holds [] []) (hp : p ∈ s.strong)
    (value : s.heap.value p = some alg) (same : alg.id = n) (taken : s.step e = some t) :
    Fate s t p n := by
  cases step_cases taken with
  | refused => exact .stays value same hp rfl
  | new addr t made =>
    exact fromInner_fate (r := { s with made := s.made + 1 }) holds.account hp value same made
  | unlock i alg addr t here made =>
    exact fromInner_fate (r := { s with locked := s.locked.eraseIdx i }) holds.account hp value same
      made
  | clone q held => exact .stays value same hp (Owned.value_addWeak s.heap q p)
  | dropHandle q held =>
    have owned := holds.account.perm (.refl _)
      (show s.weak.Perm (q :: (s.wheels ++ s.handles.erase q)) from
        ((List.perm_cons_erase held).append_left s.wheels).trans List.perm_middle)
    exact .stays value same hp (owned.value_dropWeak (List.mem_append_right _ List.mem_cons_self) p)
  | worked q t work =>
    obtain ⟨alg', value', same'⟩ := worked_value holds hp value work
    exact .shared (((worked_grows holds work).2 p).mpr hp) alg' value' (same'.trans same)
  | returned q m work =>
    obtain ⟨alg', value', same'⟩ := worked_value holds hp value work
    exact release_fate (worked_holds holds work) (((worked_grows holds work).2 p).mpr hp) value'
      (same'.trans same)
  | directLocked i e alg w here direct unwound stepped => exact .stays value same hp rfl
  | lock q wheel resting =>
    rcases unmake_fate holds wheel hp value with ⟨alive, kept⟩ | ⟨rfl, -, -⟩
    · exact .shared alive alg kept same
    · exact .locked wheel
  | drop q wheel =>
    rcases unmake_fate holds wheel hp value with ⟨alive, kept⟩ | ⟨rfl, gone, out⟩
    · exact .shared alive alg kept same
    · refine .destroyed gone ?_
      show n ∈ ((s.unmake p).1.toList ++ s.destroyed).map Algorithm.id
      rw [out]
      exact same ▸ List.mem_cons_self
  | dropLocked i alg here => exact .stays value same hp rfl

/-! What becomes of locked wheels. -/

/-- The effect of a step on the locked wheels. -/
inductive Shelf (s t : Program) : Prop where
  | same (eq : t.locked = s.locked)
  | direct (i : Nat) (e : Dy.Event) (alg : Algorithm) (w : Wheel) (here : s.locked[i]? = some alg)
      (direct : e.direct = true) (stepped : alg.wheel.step e = some w)
      (eq : t.locked = s.locked.set i ⟨alg.id, w⟩)
  | lock (p : Ptr) (alg : Algorithm) (wheel : p ∈ s.wheels) (value : s.heap.value p = some alg)
      (resting : alg.wheel.resting = true) (eq : t.locked = alg :: s.locked)
  | leave (i : Nat) (eq : t.locked = s.locked.eraseIdx i)

theorem worked_shelf (work : Worked s p pins t) : t.destroyed = s.destroyed ∧ t.locked = s.locked := by
  obtain ⟨calls, before, r, m, e, grip, acted, -, -, -⟩ := work
  obtain ⟨_, _, -, -, rfl⟩ := act_spec acted
  cases grip <;> exact ⟨rfl, rfl⟩

theorem fromInner_shelf {alg : Algorithm} {addr : Addr} (taken : s.fromInner alg addr = some t) :
    t.destroyed = s.destroyed ∧ t.locked = s.locked := by
  obtain ⟨_, -, rfl⟩ := Option.map_eq_some_iff.mp taken
  exact ⟨rfl, rfl⟩

theorem Shelf.all {P : Algorithm → Prop} (shelf : Shelf s t) (before : ∀ x ∈ s.locked, P x)
    (goes : ∀ x ∈ s.locked, ∀ (e : Dy.Event) (w : Wheel), e.direct = true → x.wheel.step e = some w →
      P x → P ⟨x.id, w⟩)
    (locks : ∀ p ∈ s.wheels, ∀ x, s.heap.value p = some x → x.wheel.resting = true → P x) :
    ∀ x ∈ t.locked, P x := by
  intro y hy
  cases shelf with
  | same eq => exact before y (eq ▸ hy)
  | direct i e x w here direct stepped eq =>
    have hx := List.mem_of_getElem? here
    rw [eq] at hy
    rcases List.mem_or_eq_of_mem_set hy with hy | rfl
    · exact before y hy
    · exact goes x hx e w direct stepped (before x hx)
  | lock q x wheel value resting eq =>
    rw [eq] at hy
    rcases List.mem_cons.mp hy with rfl | hy
    · exact locks q wheel y value resting
    · exact before y hy
  | leave i eq =>
    rw [eq] at hy
    exact before y (List.mem_of_mem_eraseIdx hy)

/-- A scheduler that is destroyed stays so. -/
theorem step_shelf (holds : s.Holds [] []) (taken : s.step e = some t) :
    s.destroyed <:+ t.destroyed ∧ Shelf s t := by
  cases step_cases taken with
  | refused => exact ⟨List.suffix_refl _, .same rfl⟩
  | new addr t made =>
    obtain ⟨destroyed, locked⟩ := fromInner_shelf made
    exact ⟨destroyed ▸ List.suffix_refl _, .same locked⟩
  | unlock i alg addr t here made =>
    obtain ⟨destroyed, locked⟩ := fromInner_shelf made
    exact ⟨destroyed ▸ List.suffix_refl _, .leave i locked⟩
  | clone q held => exact ⟨List.suffix_refl _, .same rfl⟩
  | dropHandle q held => exact ⟨List.suffix_refl _, .same rfl⟩
  | worked q t work =>
    obtain ⟨destroyed, locked⟩ := worked_shelf work
    exact ⟨destroyed ▸ List.suffix_refl _, .same locked⟩
  | returned q m work =>
    obtain ⟨destroyed, locked⟩ := worked_shelf work
    exact ⟨destroyed ▸ List.suffix_append _ _, .same locked⟩
  | directLocked i e alg w here direct unwound stepped =>
    exact ⟨List.suffix_refl _, .direct i e alg w here direct stepped rfl⟩
  | lock q wheel resting =>
    refine ⟨List.suffix_refl _, ?_⟩
    cases out : (s.unmake q).1 with
    | none => exact .same rfl
    | some alg =>
      obtain ⟨-, -, value⟩ := unmade_sound holds wheel out
      have resting' : alg.wheel.resting = true := by simpa [Program.resting, value] using resting
      exact .lock q alg wheel value resting' rfl
  | drop q wheel => exact ⟨List.suffix_append _ _, .same rfl⟩
  | dropLocked i alg here => exact ⟨List.suffix_cons _ _, .leave i rfl⟩

/-- Only one scheduler has this number, wherever it is. -/
theorem Holds.unique {x y : Algorithm} (holds : s.Holds [] [])
    (hx : x ∈ s.locked) (hy : y ∈ s.locked) (same : x.id = y.id) : x = y := by
  have once : (s.locked.map Algorithm.id).Nodup := by
    refine List.nodup_iff_count_le_one.mpr fun n => ?_
    have placed := holds.placed n
    have range := List.nodup_iff_count_le_one.mp (List.nodup_range (n := s.made)) n
    unfold Algorithm.times at placed
    omega
  exact List.inj_on_of_nodup_map once hx hy same

theorem Holds.apart {x y : Algorithm} (holds : s.Holds [] []) (hp : p ∈ s.strong)
    (value : s.heap.value p = some x) (hy : y ∈ s.locked) : x.id ≠ y.id := by
  intro same
  have placed := holds.placed y.id
  have range := List.nodup_iff_count_le_one.mp (List.nodup_range (n := s.made)) y.id
  have shared : 0 < Algorithm.times y.id (s.heap.contents s.strong) :=
    List.count_pos_iff.mpr (List.mem_map.mpr ⟨x, Owned.mem_contents.mpr ⟨p, hp, value⟩, same⟩)
  have locked : 0 < Algorithm.times y.id s.locked :=
    List.count_pos_iff.mpr (List.mem_map.mpr ⟨y, hy, rfl⟩)
  have strong : [] ++ s.strong = s.strong := rfl
  rw [strong] at placed
  omega

end Step

/-- A wheel with a suspended task and one that runs is locked. -/
def lockingRun : List Event :=
  [.new 3, .clone ⟨3, 0⟩, .call ⟨3, 0⟩ (.register ⟨true, .static "a"⟩),
    .call ⟨3, 0⟩ (.register ⟨false, .none⟩), .lock ⟨3, 0⟩]

/-- One of its tasks is polled to its end. -/
def lockedRun : List Event :=
  [.directLocked 0 (.poll 1)] ++ List.replicate 4 (.directLocked 0 .run) ++
    [.directLocked 0 (.done true), .directLocked 0 .run, .directLocked 0 .dropped]

/-- A wheel is to be locked by the conversion of a `spawn_dyn` on it, in the closure of a
`with_name`. -/
def conversionRun : List Event :=
  [.new 3, .clone ⟨3, 0⟩, .call ⟨3, 0⟩ (.register ⟨true, .static "a"⟩), .withName ⟨3, 0⟩ 0,
    .spawnDyn ⟨3, 0⟩]

theorem lockingRun_enabled : (exec step start lockingRun).isSome = true := by decide +kernel

theorem lockedRun_enabled :
    (exec step (last step start lockingRun) lockedRun).isSome = true := by decide +kernel

theorem conversionRun_enabled : (exec step start conversionRun).isSome = true := by decide +kernel

section Runs
variable {s t : Program} {es fs : List Event} {p q : Ptr}

/-- A handle reaches its wheel as long as the wheel or a call run through the wheel's
handles is there. Once it does not, it never will, though the wheel may be unlocked again,
and calls through it do nothing. -/
theorem handle_valid (run : exec step start es = some s) (held : p ∈ s.handles) :
    (s.isValid p = true ↔ p ∈ s.wheels ∨ p ∈ s.running) ∧
    (s.isValid p = false →
      (∀ c : Call, (Dy.Event.call c).direct = false → s.step (.call p c) = some s) ∧
      (∀ key, s.step (.withName p key) = some s) ∧ s.step (.spawnDyn p) = some s ∧
      s.step (.fmtName p) = some s ∧
      ∀ fs t, exec step s fs = some t → p ∈ t.handles → t.isValid p = false) := by
  have holds := run_holds run
  have weak : p ∈ s.weak := List.mem_append_right _ held
  have valid := isValid_iff holds (List.mem_append_right s.strong weak)
  refine ⟨valid.trans List.mem_append, fun invalid => ?_⟩
  have zero : s.heap.strongCount p = 0 := by
    simpa [isValid] using invalid
  have refused : ∀ code e, s.enter p code e = some s := fun code e => by
    simp only [enter, if_pos weak, Heap.upgrade, if_pos zero]
  refine ⟨fun c call => ?_, fun key => refused _ _, refused _ _, refused _ _,
    fun fs t later still => ?_⟩
  · simp only [step, Program.call, if_pos (And.intro weak call), Heap.upgrade, if_pos zero]
  · have dead : s.Dead p := by
      refine ⟨holds.account.birth_lt (List.mem_append_right _ weak), fun alive => ?_⟩
      rw [valid.mpr alive] at invalid
      cases invalid
    obtain ⟨holds', dead'⟩ : t.Holds [] [] ∧ t.Dead p :=
      invariant_run (I := fun s => s.Holds [] [] ∧ s.Dead p)
        (fun _ _ _ both taken => ⟨step_holds both.1 taken, dead_step both.1 both.2 taken⟩)
        ⟨holds, dead⟩ later
    by_contra valid'
    have weak' : p ∈ t.weak := List.mem_append_right _ still
    exact dead'.2 ((isValid_iff holds' (List.mem_append_right _ weak')).mp (by simpa using valid'))

theorem handle_valid_locked :
    ((last step start lockingRun).isValid ⟨3, 0⟩ = true ↔
      ⟨3, 0⟩ ∈ (last step start lockingRun).wheels ∨ ⟨3, 0⟩ ∈ (last step start lockingRun).running) ∧
    ((last step start lockingRun).isValid ⟨3, 0⟩ = false →
      (∀ c : Call, (Dy.Event.call c).direct = false →
        (last step start lockingRun).step (.call ⟨3, 0⟩ c) = some (last step start lockingRun)) ∧
      (∀ key, (last step start lockingRun).step (.withName ⟨3, 0⟩ key) =
        some (last step start lockingRun)) ∧
      (last step start lockingRun).step (.spawnDyn ⟨3, 0⟩) = some (last step start lockingRun) ∧
      (last step start lockingRun).step (.fmtName ⟨3, 0⟩) = some (last step start lockingRun) ∧
      ∀ fs t, exec step (last step start lockingRun) fs = some t → ⟨3, 0⟩ ∈ t.handles →
        t.isValid ⟨3, 0⟩ = false) :=
  handle_valid (exec_last lockingRun_enabled) (by decide +kernel)

/-- Handles compare equal where one `Wheel` object made them, though addresses are used
again. Every scheduler is shared by a wheel or running calls, locked, or destroyed, and only
one of these. -/
theorem schedulers_placed (run : exec step start es = some s) :
    (∀ p ∈ s.weak, ∀ q ∈ s.weak, isSame p q = true ↔ p.birth = q.birth) ∧
    (∀ p ∈ s.strong, ∃ alg, s.heap.value p = some alg) ∧
    ((s.heap.contents s.strong ++ s.locked ++ s.destroyed).map Algorithm.id).Perm
      (List.range s.made) := by
  have holds := run_holds run
  have owned := holds.account
  refine ⟨fun p hp q hq => ?_, fun p hp => ?_, List.perm_iff_count.mpr fun n => ?_⟩
  · have hp' := List.mem_append_right s.strong hp
    have hq' := List.mem_append_right s.strong hq
    rw [isSame, decide_eq_true_eq]
    exact ⟨fun same => congrArg Ptr.birth (owned.eq_of_addr hp' hq' same),
      fun same => congrArg Ptr.addr (owned.eq_of_birth hp' hq' same)⟩
  · exact Option.isSome_iff_exists.mp ((owned.value_isSome (List.mem_append_left _ hp)).mpr hp)
  · have placed := holds.placed n
    simp only [Algorithm.times, List.map_nil, List.count_nil, List.nil_append, Nat.zero_add] at placed
    rw [List.map_append, List.map_append, List.count_append, List.count_append]
    exact placed

theorem schedulers_placed_locked :
    (∀ p ∈ (last step start lockingRun).weak, ∀ q ∈ (last step start lockingRun).weak,
      isSame p q = true ↔ p.birth = q.birth) ∧
    (∀ p ∈ (last step start lockingRun).strong,
      ∃ alg, (last step start lockingRun).heap.value p = some alg) ∧
    (((last step start lockingRun).heap.contents (last step start lockingRun).strong ++
      (last step start lockingRun).locked ++ (last step start lockingRun).destroyed).map
        Algorithm.id).Perm (List.range (last step start lockingRun).made) :=
  schedulers_placed (exec_last lockingRun_enabled)

/-- A scheduler whose `Wheel` object is gone is kept by the calls that run, until the last. -/
structure Abandoned (p : Ptr) (n : Nat) (s : Program) : Prop where
  holds : s.Holds [] []
  born : p.birth < s.heap.births
  gone : p ∉ s.wheels
  place : (p ∈ s.running ∧ ∃ alg, s.heap.value p = some alg ∧ alg.id = n) ∨
    (p ∉ s.running ∧ n ∈ s.destroyed.map Algorithm.id)

theorem abandoned_step {n : Nat} {e : Event} (ab : Abandoned p n s) (taken : s.step e = some t) :
    Abandoned p n t := by
  have grows := step_grows ab.holds taken
  have born : p.birth < t.heap.births := Nat.lt_of_lt_of_le ab.born grows.births
  have gone : p ∉ t.wheels := fun wheel => (grows.wheels p wheel).elim ab.gone (Nat.ne_of_lt ab.born)
  have stays : p ∈ t.strong ↔ p ∈ t.running := by simp [strong, gone]
  refine ⟨step_holds ab.holds taken, born, gone, ?_⟩
  rcases ab.place with ⟨call, alg, value, same⟩ | ⟨idle, last⟩
  · have alive : p ∈ s.strong := List.mem_append_right _ call
    cases step_fate ab.holds alive value same taken with
    | shared alive alg value same => exact Or.inl ⟨stays.mp alive, alg, value, same⟩
    | destroyed left last => exact Or.inr ⟨fun call => left (stays.mpr call), last⟩
    | locked wheel => exact absurd wheel ab.gone
  · have dead : s.Dead p := ⟨ab.born, by simp [strong, ab.gone, idle]⟩
    refine Or.inr ⟨fun call => (dead_step ab.holds dead taken).2 (stays.mpr call), ?_⟩
    exact ((step_shelf ab.holds taken).1.map Algorithm.id).subset last

/-- Where no poll borrows the wheel, the closures open on it are those of running calls. -/
theorem opened_calls {alg : Algorithm} (holds : s.Holds [] []) (alive : p ∈ s.strong)
    (value : s.heap.value p = some alg) (resting : alg.wheel.resting = true) :
    alg.wheel.outer = [] ↔ ⟨p, .closure⟩ ∉ s.calls := by
  obtain ⟨reach, opened⟩ := holds.shared p alive alg value
  have outside : alg.wheel.pc.inside = false := by
    unfold Wheel.resting at resting
    split at resting
    · rename_i pc
      rw [pc]
      rfl
    · rename_i pc
      rw [pc]
      rfl
    · cases resting
  rw [Wheel.opened, (Wheel.reachable_kept reach).lending.closed outside] at opened
  rw [← List.length_eq_zero_iff, ← List.count_eq_zero, ← closures, ← opened]
  rfl

/-- Locking fails just inside of a call of one of the wheel's handles. Where it succeeds
the handles are invalid and the tasks have not changed; where it fails the wheel is lost, and
its tasks are when the last of those calls returns. -/
theorem lock_outcome (run : exec step start es = some s) (wheel : p ∈ s.wheels)
    (resting : s.resting p = true) : ∃ alg t, s.heap.value p = some alg ∧
      s.step (.lock p) = some t ∧ p ∉ t.wheels ∧
      (alg.wheel.outer = [] ↔ ⟨p, .closure⟩ ∉ s.calls) ∧
      (p ∉ s.running → t.locked = alg :: s.locked ∧
        ∀ q ∈ t.handles, q.birth = p.birth → t.isValid q = false) ∧
      (p ∈ s.running → t.locked = s.locked ∧ p ∈ t.running ∧ t.heap.value p = some alg ∧
        ∀ fs u, exec step t fs = some u →
          (p ∈ u.running ∧ ∃ alg', u.heap.value p = some alg' ∧ alg'.id = alg.id) ∨
          (p ∉ u.running ∧ alg.id ∈ u.destroyed.map Algorithm.id)) := by
  have holds := run_holds run
  have alive : p ∈ s.strong := List.mem_append_left _ wheel
  obtain ⟨alg, value, resting'⟩ := (Option.any_eq_true _ _).mp resting
  obtain ⟨-, out, gone⟩ := unmake_spec holds wheel
  have taken : s.step (.lock p) = _ := lock_eq wheel resting
  have next := step_holds holds taken
  refine ⟨alg, _, value, taken, gone, opened_calls holds alive value resting', fun idle => ?_,
    fun call => ?_⟩
  · refine ⟨by rw [out, if_neg idle, value]; rfl, fun q hq birth => ?_⟩
    have weak : q ∈ s.weak := List.mem_append_right _ hq
    have same : q = p := holds.account.eq_of_birth (List.mem_append_right _ weak)
      (List.mem_append_left _ alive) birth
    subst same
    have dead : q ∉ (s.unmake q).2.wheels ++ (s.unmake q).2.running := fun member =>
      (List.mem_append.mp member).elim gone idle
    by_contra valid
    exact dead ((isValid_iff next (List.mem_append_right _ (List.mem_append_right _ hq))).mp
      (by simpa using valid))
  · have kept : (s.unmake p).2.heap.value p = some alg := by
      rcases unmake_fate holds wheel alive value with ⟨-, kept⟩ | ⟨-, lost, -⟩
      · exact kept
      · exact absurd (List.mem_append_right _ call) lost
    refine ⟨by rw [out, if_pos call]; rfl, call, kept, fun fs u later => ?_⟩
    have born : p.birth < (s.unmake p).2.heap.births :=
      Nat.lt_of_lt_of_le (holds.account.birth_lt (List.mem_append_left _ alive))
        (unmake_grows s p).births
    have left : Abandoned p alg.id _ := ⟨next, born, gone, Or.inl ⟨call, alg, kept, rfl⟩⟩
    exact (invariant_run (fun _ _ _ => abandoned_step) left later).place

theorem lock_outcome_conversion :
    ∃ alg t, (last step start conversionRun).heap.value ⟨3, 0⟩ = some alg ∧
      (last step start conversionRun).step (.lock ⟨3, 0⟩) = some t ∧ ⟨3, 0⟩ ∉ t.wheels ∧
      (alg.wheel.outer = [] ↔ ⟨⟨3, 0⟩, .closure⟩ ∉ (last step start conversionRun).calls) ∧
      (⟨3, 0⟩ ∉ (last step start conversionRun).running →
        t.locked = alg :: (last step start conversionRun).locked ∧
        ∀ q ∈ t.handles, q.birth = 0 → t.isValid q = false) ∧
      (⟨3, 0⟩ ∈ (last step start conversionRun).running →
        t.locked = (last step start conversionRun).locked ∧ ⟨3, 0⟩ ∈ t.running ∧
        t.heap.value ⟨3, 0⟩ = some alg ∧ ∀ fs u, exec step t fs = some u →
          (⟨3, 0⟩ ∈ u.running ∧ ∃ alg', u.heap.value ⟨3, 0⟩ = some alg' ∧ alg'.id = alg.id) ∨
          (⟨3, 0⟩ ∉ u.running ∧ alg.id ∈ u.destroyed.map Algorithm.id)) :=
  lock_outcome (exec_last conversionRun_enabled) (by decide +kernel) (by decide +kernel)

/-- A locked wheel is never in the middle of polling a suspended task. -/
theorem locked_awake (run : exec step start es = some s) : ∀ alg ∈ s.locked, alg.wheel.Awake := by
  refine (invariant_run (I := fun s => s.Holds [] [] ∧ ∀ alg ∈ s.locked, alg.wheel.Awake) ?_
    ⟨start_holds, fun alg member => absurd member List.not_mem_nil⟩ run).2
  rintro r e u ⟨holds, awake⟩ taken
  refine ⟨step_holds holds taken, (step_shelf holds taken).2.all awake ?_ ?_⟩
  · intro x hx e w direct stepped awake
    exact Wheel.awake_step (Wheel.reachable_consistent (holds.locked x hx).reach) awake direct stepped
  · exact fun p wheel x value resting => Wheel.awake_resting resting

/-- While a wheel is locked its tasks can only go on. None enters, none is suspended,
resumed or cancelled, and those that were suspended wait till it is unlocked. -/
theorem locked_sealed {alg alg' : Algorithm} (run : exec step start es = some s)
    (member : alg ∈ s.locked) (later : exec step s fs = some t)
    (stays : Along step (fun _ _ r => alg.id ∈ r.locked.map Algorithm.id) s fs)
    (member' : alg' ∈ t.locked) (same : alg'.id = alg.id) :
    (∀ key task, alg'.wheel.get key = some task → ∃ old, alg.wheel.get key = some old ∧
      old.tid = task.tid ∧ old.name = task.name ∧ old.stopReason = task.stopReason) ∧
    (∀ key old, alg.wheel.get key = some old → old.stopReason = .suspended →
      ∃ task, alg'.wheel.get key = some task ∧ task.tid = old.tid ∧ task.stopReason = .suspended) := by
  have holds := run_holds run
  have first : ∀ x ∈ s.locked, x.id = alg.id → Wheel.Untouched alg.wheel x.wheel := by
    intro x hx eq
    cases holds.unique hx member eq
    exact Wheel.untouched_self (Wheel.reachable_consistent (holds.locked alg member).reach)
      (locked_awake run alg member)
  obtain ⟨-, -, final⟩ : t.Holds [] [] ∧ alg.id ∈ t.locked.map Algorithm.id ∧
      ∀ x ∈ t.locked, x.id = alg.id → Wheel.Untouched alg.wheel x.wheel := by
    refine invariant_along (I := fun s => s.Holds [] [] ∧ alg.id ∈ s.locked.map Algorithm.id ∧
      ∀ x ∈ s.locked, x.id = alg.id → Wheel.Untouched alg.wheel x.wheel) ?_
      ⟨holds, List.mem_map.mpr ⟨alg, member, rfl⟩, first⟩ later stays
    rintro r e u ⟨holds, there, untouched⟩ taken there'
    refine ⟨step_holds holds taken, there', (step_shelf holds taken).2.all untouched ?_ ?_⟩
    · exact fun x _ e w direct stepped before id => Wheel.untouched_step (before id) direct stepped
    · intro q wheel x value _ id
      obtain ⟨z, hz, id'⟩ := List.mem_map.mp there
      exact absurd (id.trans id'.symm) (holds.apart (List.mem_append_left _ wheel) value hz)
  exact ⟨(final alg' member' same).kept, (final alg' member' same).asleep⟩

/-- The two tasks as they were when the wheel was locked. -/
def lockedTasks : Algorithm where
  id := 0
  wheel := last Wheel.step .new
    [.call (.register ⟨true, .static "a"⟩), .call (.register ⟨false, .none⟩)]

theorem lockingRun_locked : (last step start lockingRun).locked = [lockedTasks] := rfl

theorem lockedRun_locked :
    (last step (last step start lockingRun) lockedRun).locked.length = 1 := by decide +kernel

theorem locked_sealed_polled :
    (∀ key task, ((last step (last step start lockingRun) lockedRun).locked.get
        ⟨0, lockedRun_locked ▸ Nat.one_pos⟩).wheel.get key = some task →
      ∃ old, lockedTasks.wheel.get key = some old ∧ old.tid = task.tid ∧ old.name = task.name ∧
        old.stopReason = task.stopReason) ∧
    (∀ key old, lockedTasks.wheel.get key = some old → old.stopReason = .suspended →
      ∃ task, ((last step (last step start lockingRun) lockedRun).locked.get
          ⟨0, lockedRun_locked ▸ Nat.one_pos⟩).wheel.get key = some task ∧
        task.tid = old.tid ∧ task.stopReason = .suspended) :=
  locked_sealed (exec_last lockingRun_enabled) (lockingRun_locked ▸ List.mem_cons_self)
    (exec_last lockedRun_enabled) (by decide +kernel) (List.get_mem _ _)
    (by decide +kernel)

end Runs
end Program
end Juggle.Dy
