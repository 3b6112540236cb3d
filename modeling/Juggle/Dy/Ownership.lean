import Juggle.Dy.Borrow
import Juggle.Dy.Program

/-! In every run of a program the counts of the heap are those of the pointers it holds,
so a handle is valid just as long as its wheel or a call through it is there, and every
scheduler is in one place until it is destroyed once. -/
namespace Juggle.Dy
open Juggle.Sharing Juggle.Runs

namespace Wheel
variable {s t : Wheel}

/-- The number of `with_name` calls that run. -/
def opened (s : Wheel) : Nat := s.outer.length + s.inner.length

theorem opened_frame (outer : t.outer = s.outer) (inner : t.inner = s.inner) :
    t.opened = s.opened := by
  rw [opened, opened, outer, inner]

theorem call_opened {c : Call} (h : s.call c = some t) : t.opened = s.opened := by
  obtain ⟨-, outer, inner⟩ := perform_lending s c
  unfold call at h
  split at h <;> cases h
  · exact opened_frame outer inner
  · exact opened_frame (s := s) (t := (s.perform c).goto _) outer inner
  · exact opened_frame outer inner
  · exact opened_frame (s := s) (t := (s.perform c).goto _) outer inner

theorem withName_opened {key : TaskKey} (h : s.withName key = some t) : t.opened = s.opened + 1 := by
  unfold withName at h
  split at h <;> cases h <;> simp [opened] <;> omega

theorem withNameEnd_opened (h : s.withNameEnd = some t) : s.opened = t.opened + 1 := by
  unfold withNameEnd at h
  split at h
  all_goals cases h
  all_goals simp [opened, *]
  all_goals omega

theorem remove_opened (s : Wheel) (b : Beat) (key : TaskKey) : (s.remove b key).opened = s.opened := by
  unfold remove
  split <;> rfl

theorem run_opened (h : s.run = some t) : t.opened = s.opened := by
  unfold run at h
  split at h <;> cases h
  · rfl
  · split
    · unfold visit
      repeat' split
      all_goals rfl
    · unfold endBeat
      split
      · rfl
      · rfl
      · rfl
      · dsimp only
        split <;> rfl
  · unfold pollLocal
    repeat' split
    all_goals rfl
  · exact remove_opened s _ _
  · rfl
  · rfl

/-- Only `with_name` opens and closes closures, but for a panic. -/
theorem direct_opened {e : Event} (direct : e.direct = true) (unwound : Program.unwound s e = true)
    (h : s.step e = some t) : t.opened = s.opened := by
  cases e with
  | call c => exact call_opened h
  | withName key => cases direct
  | withNameEnd => cases direct
  | wakeBegin target =>
    cases h
    rfl
  | wakeStep i =>
    simp only [step, wakeStep] at h
    split at h <;> cases h
    · rfl
    · rfl
    · obtain ⟨-, outer, inner⟩ := storeRunnable_lending s ‹TaskRef›
      exact opened_frame outer inner
  | poll w =>
    simp only [step, poll] at h
    split at h <;> cases h <;> rfl
  | run => exact run_opened h
  | done isReady =>
    simp only [step, done] at h
    split at h <;> cases h
    rfl
  | dropped =>
    simp only [step, dropped] at h
    split at h <;> cases h
    rfl
  | panic =>
    have shut : s.inner = [] := by simpa [Program.unwound, Event.isPanic] using unwound
    have same : s.closeInner.opened = s.opened :=
      opened_frame (closeInner_outer s) (shut.symm ▸ rfl)
    simp only [step, panic] at h
    split at h <;> cases h
    · exact same
    · exact same

theorem after_reachable {e : Option Event} (reach : Reachable step (fun s => s = .new) s)
    (h : s.after e = some t) : Reachable step (fun s => s = .new) t := by
  cases e with
  | none =>
    cases h
    exact reach
  | some e => exact reach.next h

end Wheel

/-- How often a scheduler is among these. -/
def Algorithm.times (n : Nat) (algs : List Algorithm) : Nat := (algs.map Algorithm.id).count n

@[simp] theorem Algorithm.times_nil (n : Nat) : times n [] = 0 := rfl

theorem Algorithm.times_append (n : Nat) (algs algs' : List Algorithm) :
    times n (algs ++ algs') = times n algs + times n algs' := by
  rw [times, List.map_append, List.count_append, times, times]

theorem Algorithm.times_perm {algs algs' : List Algorithm} (same : algs.Perm algs') (n : Nat) :
    times n algs = times n algs' :=
  (same.map Algorithm.id).count_eq n

/-- A scheduler that came about by running, with so many `with_name` calls open. -/
structure Algorithm.Sound (alg : Algorithm) (opened : Nat) : Prop where
  reach : Reachable Wheel.step (fun s => s = .new) alg.wheel
  opened : alg.wheel.opened = opened

namespace Program

/-! The steps of a program, sorted by what they do to the pointers. -/

/-- The number of `with_name` calls that run on the wheel. -/
def closures (calls : List Running) (p : Ptr) : Nat := calls.count ⟨p, .closure⟩

theorem closures_cons (calls : List Running) (p : Ptr) (code : Code) :
    closures (⟨p, code⟩ :: calls) p = closures calls p + if code = .closure then 1 else 0 := by
  rw [closures, closures, List.count_cons]
  simp

theorem closures_other {p q : Ptr} {code : Code} (calls : List Running) (ne : q ≠ p) :
    closures (⟨p, code⟩ :: calls) q = closures calls q :=
  List.count_cons_of_ne fun eq => ne (congrArg Running.ptr eq).symm

theorem closures_unused {s : Program} {p : Ptr} (unused : p ∉ s.running) : closures s.calls p = 0 :=
  List.count_eq_zero.mpr fun member => unused (List.mem_map.mpr ⟨_, member, rfl⟩)

/-- The pointer that a step works through is there, or made of a weak one and in hand. -/
inductive Grip (s : Program) (p : Ptr) : List Ptr → Program → Prop where
  | there (alive : p ∈ s.strong) : Grip s p [] s
  | upgraded (heap : Heap Algorithm) (held : p ∈ s.weak) (taken : s.heap.upgrade p = some heap) :
      Grip s p [p] { s with heap := heap }

/-- A step has worked on a scheduler and changed the calls that run. It has `pins` in hand. -/
inductive Worked (s : Program) (p : Ptr) (pins : List Ptr) : Program → Prop where
  | intro (calls : List Running) (before : List Ptr) (r m : Program) (e : Option Dy.Event)
      (grip : Grip s p before r) (acted : r.act p e = some m)
      (same : (before ++ s.strong).Perm (pins ++ (s.wheels ++ calls.map Running.ptr)))
      (others : ∀ q, q ≠ p → closures calls q = closures s.calls q)
      (here : ∀ alg w, s.heap.value p = some alg → alg.wheel.after e = some w →
        alg.wheel.opened = closures s.calls p → w.opened = closures calls p) :
      Worked s p pins { m with calls := calls }

inductive Step (s : Program) : Program → Prop where
  -- a call through a handle that is not valid
  | refused : Step s s
  | new (addr : Addr) (t : Program)
      (made : { s with made := s.made + 1 }.fromInner ⟨s.made, Wheel.new⟩ addr = some t) : Step s t
  | unlock (i : Nat) (alg : Algorithm) (addr : Addr) (t : Program) (here : s.locked[i]? = some alg)
      (made : { s with locked := s.locked.eraseIdx i }.fromInner alg addr = some t) : Step s t
  | clone (p : Ptr) (held : p ∈ s.weak) :
      Step s { s with heap := s.heap.addWeak p, handles := p :: s.handles }
  | dropHandle (p : Ptr) (held : p ∈ s.handles) :
      Step s { s with heap := s.heap.dropWeak p, handles := s.handles.erase p }
  | worked (p : Ptr) (t : Program) (work : Worked s p [] t) : Step s t
  | returned (p : Ptr) (m : Program) (work : Worked s p [p] m) : Step s (m.release p)
  | directLocked (i : Nat) (e : Dy.Event) (alg : Algorithm) (w : Wheel) (here : s.locked[i]? = some alg)
      (direct : e.direct = true) (unwound : unwound alg.wheel e = true)
      (stepped : alg.wheel.step e = some w) :
      Step s { s with locked := s.locked.set i ⟨alg.id, w⟩ }
  | lock (p : Ptr) (wheel : p ∈ s.wheels) (resting : s.resting p = true) :
      Step s { (s.unmake p).2 with locked := (s.unmake p).1.toList ++ s.locked }
  | drop (p : Ptr) (wheel : p ∈ s.wheels) :
      Step s { (s.unmake p).2 with destroyed := (s.unmake p).1.toList ++ s.destroyed }
  | dropLocked (i : Nat) (alg : Algorithm) (here : s.locked[i]? = some alg) :
      Step s { s with locked := s.locked.eraseIdx i, destroyed := alg :: s.destroyed }

section Cases
variable {s t : Program} {p : Ptr}

theorem act_spec {e : Option Dy.Event} (taken : s.act p e = some t) :
    ∃ alg w, s.heap.value p = some alg ∧ alg.wheel.after e = some w ∧
      t = { s with heap := s.heap.modify p fun _ => ⟨alg.id, w⟩ } := by
  obtain ⟨alg, value, taken⟩ := Option.bind_eq_some_iff.mp taken
  obtain ⟨w, stepped, rfl⟩ := Option.map_eq_some_iff.mp taken
  exact ⟨alg, w, value, stepped, rfl⟩

theorem act_calls {e : Option Dy.Event} (taken : s.act p e = some t) :
    t.calls = s.calls ∧ { t with calls := s.calls } = t := by
  obtain ⟨_, _, -, -, rfl⟩ := act_spec taken
  exact ⟨rfl, rfl⟩

theorem call_cases {c : Call} (taken : s.call p c = some t) : Step s t := by
  unfold call at taken
  split at taken
  · rename_i fine
    split at taken
    · cases taken
      exact .refused
    · rename_i heap upgraded
      obtain ⟨r, acted, rfl⟩ := Option.map_eq_some_iff.mp taken
      have work : Worked s p [p] { r with calls := s.calls } :=
        .intro s.calls [p] _ r _ (.upgraded heap fine.1 upgraded) acted (.refl _)
          (fun _ _ => rfl) fun alg w _ stepped opened => (Wheel.call_opened stepped).trans opened
      exact .returned p r ((act_calls acted).2 ▸ work)
  · cases taken

theorem enter_cases {code : Code} {e : Option Dy.Event} (taken : s.enter p code e = some t)
    (opens : ∀ w w', Wheel.after w e = some w' →
      w'.opened = w.opened + if code = .closure then 1 else 0) : Step s t := by
  unfold enter at taken
  split at taken
  · rename_i held
    split at taken
    · cases taken
      exact .refused
    · rename_i heap upgraded
      obtain ⟨r, acted, rfl⟩ := Option.map_eq_some_iff.mp taken
      refine .worked p _ ?_
      rw [(act_calls acted).1]
      have moved : (p :: (s.wheels ++ s.running)).Perm (s.wheels ++ p :: s.running) :=
        List.perm_middle.symm
      refine .intro _ [p] _ r _ (.upgraded heap held upgraded) acted moved
        (fun q ne => closures_other s.calls ne) fun alg w _ stepped opened => ?_
      rw [opens _ _ stepped, opened, closures_cons]
  · cases taken

theorem leave_cases {code : Code} {e : Option Dy.Event} (taken : s.leave code e = some t)
    (closes : ∀ w w', Wheel.after w e = some w' →
      w.opened = w'.opened + if code = .closure then 1 else 0) : Step s t := by
  unfold leave at taken
  split at taken
  · cases taken
  · rename_i c calls running
    obtain ⟨p, code'⟩ := c
    split at taken
    · rename_i eq
      cases eq
      obtain ⟨r, acted, rfl⟩ := Option.map_eq_some_iff.mp taken
      have alive : p ∈ s.strong := by simp [strong, Program.running, running]
      refine .returned p _ (.intro calls [] s r e (.there alive) acted ?_ (fun q ne => ?_)
        fun alg w _ stepped opened => ?_)
      · simp [strong, Program.running, running]
      · rw [running, closures_other calls ne]
      · rw [closes _ _ stepped, running, closures_cons] at opened
        exact Nat.add_right_cancel opened
    · cases taken

theorem direct_cases {e : Dy.Event} (taken : s.direct p e = some t) : Step s t := by
  unfold direct at taken
  split at taken
  · rename_i fine
    have alive : p ∈ s.strong := by
      rcases fine.2.1 with wheel | ⟨call, -⟩
      · exact List.mem_append_left _ wheel
      · exact List.mem_append_right _ call
    have work : Worked s p [] { t with calls := s.calls } :=
      .intro s.calls [] s t _ (.there alive) taken (.refl _) (fun _ _ => rfl)
        fun alg w value stepped opened =>
          (Wheel.direct_opened fine.1 (by simpa [value] using fine.2.2) stepped).trans opened
    exact .worked p t ((act_calls taken).2 ▸ work)
  · cases taken

theorem lock_eq (wheel : p ∈ s.wheels) (resting : s.resting p = true) :
    s.lock p = some { (s.unmake p).2 with locked := (s.unmake p).1.toList ++ s.locked } := by
  have kept : (s.unmake p).2.locked = s.locked := rfl
  simp only [lock, if_pos (And.intro wheel resting)]
  cases unmade : s.unmake p with
  | mk alg r =>
    rw [unmade] at kept
    rw [← kept]
    cases alg <;> rfl

theorem step_cases {e : Event} (taken : s.step e = some t) : Step s t := by
  cases e with
  | new addr => exact .new addr t taken
  | clone p =>
    simp only [step, clone] at taken
    split at taken
    · rename_i held
      cases taken
      exact .clone p held
    · cases taken
  | dropHandle p =>
    simp only [step, dropHandle] at taken
    split at taken
    · rename_i held
      cases taken
      exact .dropHandle p held
    · cases taken
  | call p c => exact call_cases taken
  | withName p key => exact enter_cases taken fun w w' opens => Wheel.withName_opened opens
  | withNameEnd => exact leave_cases taken fun w w' closes => Wheel.withNameEnd_opened closes
  | spawnDyn p =>
    exact enter_cases taken fun w w' same => congrArg Wheel.opened (Option.some.inj same).symm
  | spawnDynEnd params =>
    refine leave_cases taken fun w w' stepped => ?_
    cases params with
    | none => exact congrArg Wheel.opened (Option.some.inj stepped)
    | some params => exact (Wheel.call_opened stepped).symm
  | fmtName p =>
    exact enter_cases taken fun w w' same => congrArg Wheel.opened (Option.some.inj same).symm
  | fmtNameEnd =>
    exact leave_cases taken fun w w' same => congrArg Wheel.opened (Option.some.inj same)
  | direct p e => exact direct_cases taken
  | directLocked i e =>
    obtain ⟨alg, here, taken⟩ := Option.bind_eq_some_iff.mp taken
    split at taken
    · rename_i fine
      obtain ⟨w, stepped, rfl⟩ := Option.map_eq_some_iff.mp taken
      exact .directLocked i e alg w here fine.1 fine.2 stepped
    · cases taken
  | lock p =>
    by_cases fine : p ∈ s.wheels ∧ s.resting p = true
    · cases (lock_eq fine.1 fine.2).symm.trans taken
      exact .lock p fine.1 fine.2
    · simp only [step, lock, if_neg fine] at taken
      cases taken
  | unlock i addr =>
    obtain ⟨alg, here, taken⟩ := Option.bind_eq_some_iff.mp taken
    split at taken
    · exact .unlock i alg addr t here taken
    · cases taken
  | drop p =>
    simp only [step, drop] at taken
    split at taken
    · rename_i fine
      cases taken
      exact .drop p fine.1
    · cases taken
  | dropLocked i =>
    obtain ⟨alg, here, taken⟩ := Option.bind_eq_some_iff.mp taken
    split at taken
    · cases taken
      exact .dropLocked i alg here
    · cases taken

end Cases

/-- `pins` are the strong pointers that the step in progress has in its hands, and `loose`
the schedulers it has taken out. -/
structure Holds (s : Program) (pins : List Ptr) (loose : List Algorithm) : Prop where
  owned : Owned s.heap (pins ++ s.strong) s.weak
  single : s.wheels.Nodup
  shared : ∀ p ∈ pins ++ s.strong, ∀ alg, s.heap.value p = some alg → alg.Sound (closures s.calls p)
  locked : ∀ alg ∈ s.locked, alg.Sound 0
  placed : ∀ n, Algorithm.times n loose + Algorithm.times n (s.heap.contents (pins ++ s.strong)) +
    Algorithm.times n s.locked + Algorithm.times n s.destroyed = (List.range s.made).count n

theorem start_holds : start.Holds [] [] where
  owned := Owned.empty
  single := List.nodup_nil
  shared := by simp [start, strong, running]
  locked := by simp [start]
  placed := by simp [start, strong, running, Heap.contents, Algorithm.times]

section Moves
variable {s t : Program} {p : Ptr} {pins : List Ptr} {loose : List Algorithm}

theorem upgrade_holds {heap : Heap Algorithm} (holds : s.Holds [] loose) (hp : p ∈ s.strong ++ s.weak)
    (taken : s.heap.upgrade p = some heap) : Holds { s with heap := heap } [p] loose := by
  have before := holds.owned
  rw [List.nil_append] at before
  have owned := before.upgrade hp taken
  have alive : p ∈ s.strong := by
    by_contra gone
    have zero := before.strongCount_eq hp
    rw [List.count_eq_zero.mpr gone] at zero
    rw [Heap.upgrade, if_pos zero] at taken
    cases taken
  refine ⟨owned, holds.single, ?_, holds.locked, ?_⟩
  · intro q hq alg value
    have hq' : q ∈ [] ++ s.strong := by
      rcases List.mem_append.mp hq with here | there
      · rw [List.mem_singleton.mp here]
        exact alive
      · exact there
    exact holds.shared q hq' alg ((Owned.value_upgrade taken q).symm.trans value)
  · have same : heap.contents ([p] ++ s.strong) = s.heap.contents ([] ++ s.strong) := by
      rw [List.singleton_append, Owned.contents_again heap alive]
      exact Owned.contents_congr fun q _ => Owned.value_upgrade taken q
    intro n
    rw [← holds.placed n, ← same]
    rfl

theorem grip_holds {r : Program} (holds : s.Holds [] loose) (grip : Grip s p pins r) :
    r.Holds pins loose ∧ p ∈ pins ++ r.strong ∧ r.heap.value p = s.heap.value p := by
  cases grip with
  | there alive => exact ⟨holds, alive, rfl⟩
  | upgraded heap held taken =>
    exact ⟨upgrade_holds holds (List.mem_append_right s.strong held) taken,
      List.mem_append_left _ List.mem_cons_self, Owned.value_upgrade taken p⟩

/-- The scheduler goes on; at the same time a pointer in hand may become that of a running
call, or the other way round. -/
theorem act_holds {e : Option Dy.Event} (calls : List Running) (pins' : List Ptr)
    (holds : s.Holds pins loose) (hp : p ∈ pins ++ s.strong) (taken : s.act p e = some t)
    (same : (pins ++ s.strong).Perm (pins' ++ (s.wheels ++ calls.map Running.ptr)))
    (others : ∀ q, q ≠ p → closures calls q = closures s.calls q)
    (here : ∀ alg w, s.heap.value p = some alg → alg.wheel.after e = some w →
      alg.wheel.opened = closures s.calls p → w.opened = closures calls p) :
    Holds { t with calls := calls } pins' loose := by
  obtain ⟨alg, w, value, stepped, rfl⟩ := act_spec taken
  have hp' : p ∈ (pins ++ s.strong) ++ s.weak := List.mem_append_left s.weak hp
  have owned := (holds.owned.modify (f := fun _ => ⟨alg.id, w⟩) hp').perm same (.refl _)
  refine ⟨owned, holds.single, ?_, holds.locked, ?_⟩
  · intro q hq alg' value'
    have hq' : q ∈ pins ++ s.strong := same.mem_iff.mpr hq
    have sound := holds.shared q hq'
    rw [holds.owned.value_modify hp' _ (List.mem_append_left s.weak hq')] at value'
    split at value'
    · rename_i eq
      subst eq
      rw [value] at value'
      cases value'
      obtain ⟨reach, opened⟩ := sound alg value
      exact ⟨Wheel.after_reachable reach stepped, here alg w value stepped opened⟩
    · rename_i ne
      show alg'.Sound (closures calls q)
      rw [others q ne]
      exact sound alg' value'
  · have kept := holds.owned.map_contents_modify (f := fun _ => (⟨alg.id, w⟩ : Algorithm))
      (g := Algorithm.id) hp' fun x value' => by
        rw [value] at value'
        cases value'
        rfl
    intro n
    have counted : Algorithm.times n ((s.heap.modify p fun _ => ⟨alg.id, w⟩).contents
        (pins' ++ (s.wheels ++ calls.map Running.ptr))) =
        Algorithm.times n (s.heap.contents (pins ++ s.strong)) :=
      (Algorithm.times_perm (Owned.contents_perm _ same.symm) n).trans
        (congrArg (List.count n) kept)
    exact (congrArg (_ + · + _ + _) counted).trans (holds.placed n)

theorem worked_holds (holds : s.Holds [] loose) (work : Worked s p pins t) : t.Holds pins loose := by
  obtain ⟨calls, before, r, m, e, grip, acted, same, others, here⟩ := work
  obtain ⟨holds', hp, value⟩ := grip_holds holds grip
  cases grip <;> exact act_holds calls pins holds' hp acted same others fun alg w found =>
    here alg w (value.symm.trans found)

theorem release_holds (holds : s.Holds (p :: pins) loose) : (s.release p).Holds pins loose := by
  refine ⟨holds.owned.dropStrong, holds.single, ?_, holds.locked, ?_⟩
  · intro q hq alg value
    exact holds.shared q (List.mem_cons_of_mem p hq) alg
      ((holds.owned.value_dropStrong hq).symm.trans value)
  · intro n
    have moved : s.heap.contents (p :: pins ++ s.strong) =
      (s.heap.dropStrong p).1.toList ++ (s.heap.dropStrong p).2.contents (pins ++ s.strong) :=
      holds.owned.contents_dropStrong
    have placed := holds.placed n
    rw [moved, Algorithm.times_append] at placed
    refine Eq.trans ?_ placed
    show _ + _ + _ + Algorithm.times n ((s.heap.dropStrong p).1.toList ++ s.destroyed) = _
    rw [Algorithm.times_append]
    simp only [release, strong, running]
    omega

theorem fromInner_holds {alg : Algorithm} {addr : Addr} (holds : s.Holds [] [alg])
    (sound : alg.Sound 0) (taken : s.fromInner alg addr = some t) :
    t.Holds [] [] ∧ ∃ p, t.wheels = p :: s.wheels ∧ p.birth = s.heap.births ∧
      t.heap.value p = some alg ∧ p ∉ s.running := by
  obtain ⟨⟨p, heap⟩, made, rfl⟩ := Option.map_eq_some_iff.mp taken
  obtain ⟨owned, birth, births, value⟩ := holds.owned.alloc made
  have fresh : ∀ q ∈ s.strong, q ≠ p := by
    rintro q hq rfl
    exact Nat.lt_irrefl _ (birth ▸ holds.owned.birth_lt (List.mem_append_left s.weak hq))
  have unused : p ∉ s.running := fun member => fresh p (List.mem_append_right _ member) rfl
  refine ⟨⟨?_, ?_, ?_, holds.locked, ?_⟩, p, rfl, birth, ?_, unused⟩
  · exact owned.addWeak (List.mem_append_left s.weak List.mem_cons_self)
  · exact List.nodup_cons.mpr ⟨fun member => fresh p (List.mem_append_left _ member) rfl,
      holds.single⟩
  · intro q hq alg' value'
    rw [Owned.value_addWeak] at value'
    rcases List.mem_cons.mp (show q ∈ p :: s.strong from hq) with rfl | hq
    · rw [value] at value'
      cases value'
      show alg.Sound (closures s.calls q)
      rw [closures_unused unused]
      exact sound
    · rw [holds.owned.value_alloc made (List.mem_append_left s.weak hq)] at value'
      exact holds.shared q hq alg' value'
  · intro n
    have grown : (heap.addWeak p).contents (p :: s.strong) = alg :: s.heap.contents s.strong :=
      (Owned.contents_congr fun q _ => Owned.value_addWeak heap p q).trans
        (holds.owned.contents_alloc made)
    have placed := holds.placed n
    show Algorithm.times n [] + Algorithm.times n ((heap.addWeak p).contents (p :: s.strong)) + _ + _ = _
    rw [grown, ← List.singleton_append, Algorithm.times_append]
    refine Eq.trans ?_ placed
    simp only [Algorithm.times_nil, List.nil_append]
    omega
  · rw [Owned.value_addWeak]
    exact value

/-- The scheduler comes out of its wheel unless a call still runs. -/
theorem unmake_spec (holds : s.Holds [] []) (hp : p ∈ s.wheels) :
    (s.unmake p).2.Holds [] (s.unmake p).1.toList ∧
      (s.unmake p).1 = (if p ∈ s.running then none else s.heap.value p) ∧
      p ∉ (s.unmake p).2.wheels := by
  have strongs : s.strong.Perm (p :: (s.wheels.erase p ++ s.running)) :=
    (List.perm_cons_erase hp).append_right s.running
  have weaks : s.weak.Perm (p :: (s.wheels.erase p ++ s.handles)) :=
    (List.perm_cons_erase hp).append_right s.handles
  have owned := holds.owned.perm strongs weaks
  have gone : p ∉ s.wheels.erase p := fun member => (holds.single.mem_erase_iff.mp member).1 rfl
  have less := owned.dropStrong
  have member : p ∈ (s.wheels.erase p ++ s.running) ++ p :: (s.wheels.erase p ++ s.handles) :=
    List.mem_append_right _ List.mem_cons_self
  have value : ∀ q ∈ s.wheels.erase p ++ s.running,
      ((s.heap.dropStrong p).2.dropWeak p).value q = s.heap.value q := fun q hq =>
    (less.value_dropWeak member q).trans (owned.value_dropStrong hq)
  have out : (s.heap.dropStrong p).1 = if p ∈ s.running then none else s.heap.value p := by
    rw [owned.dropStrong_value]
    simp only [List.mem_append, gone, false_or]
  refine ⟨⟨less.dropWeak, holds.single.erase p, ?_, holds.locked, ?_⟩, out, gone⟩
  · intro q hq alg value'
    refine holds.shared q (strongs.mem_iff.mpr (List.mem_cons_of_mem p hq)) alg ?_
    exact (value q hq).symm.trans value'
  · intro n
    have moved := owned.contents_dropStrong
    have counted := Algorithm.times_perm (Owned.contents_perm s.heap strongs) n
    rw [moved, Algorithm.times_append] at counted
    have same : ((s.heap.dropStrong p).2.dropWeak p).contents (s.wheels.erase p ++ s.running) =
        (s.heap.dropStrong p).2.contents (s.wheels.erase p ++ s.running) :=
      Owned.contents_congr fun q _ => less.value_dropWeak member q
    refine Eq.trans ?_ (holds.placed n)
    show _ + Algorithm.times n
      (((s.heap.dropStrong p).2.dropWeak p).contents (s.wheels.erase p ++ s.running)) + _ + _ = _
    rw [same]
    simp only [unmake, List.nil_append, counted, Algorithm.times_nil]
    omega

/-- What was taken out finds another place. -/
theorem Holds.lay {locked destroyed : List Algorithm} (holds : s.Holds [] loose)
    (sound : ∀ alg ∈ locked, alg.Sound 0)
    (counted : ∀ n, Algorithm.times n locked + Algorithm.times n destroyed =
      Algorithm.times n loose + Algorithm.times n s.locked + Algorithm.times n s.destroyed) :
    Holds { s with locked := locked, destroyed := destroyed } [] [] where
  owned := holds.owned
  single := holds.single
  shared := holds.shared
  locked := sound
  placed n := by
    have placed := holds.placed n
    have counted := counted n
    refine Eq.trans ?_ placed
    show _ + Algorithm.times n (s.heap.contents s.strong) + _ + _ = _
    simp only [Algorithm.times_nil, List.nil_append]
    omega

theorem unmade_sound {alg : Algorithm} (holds : s.Holds [] []) (hp : p ∈ s.wheels)
    (out : (s.unmake p).1 = some alg) : alg.Sound 0 ∧ p ∉ s.running ∧ s.heap.value p = some alg := by
  obtain ⟨-, spec, -⟩ := unmake_spec holds hp
  rw [out] at spec
  split at spec
  · cases spec
  · rename_i unused
    have member : p ∈ s.strong := List.mem_append_left s.running hp
    have sound := holds.shared p member alg spec.symm
    rw [closures_unused unused] at sound
    exact ⟨sound, unused, spec.symm⟩

/-- Handles come and go, and the schedulers stay. -/
theorem Holds.handled {heap : Heap Algorithm} {handles : List Ptr} (holds : s.Holds [] loose)
    (owned : Owned heap s.strong (s.wheels ++ handles)) (value : ∀ q, heap.value q = s.heap.value q) :
    Holds { s with heap := heap, handles := handles } [] loose where
  owned := owned
  single := holds.single
  shared q hq alg found := holds.shared q hq alg ((value q).symm.trans found)
  locked := holds.locked
  placed n := by
    rw [← holds.placed n]
    exact congrArg (fun algs => _ + Algorithm.times n algs + _ + _)
      (Owned.contents_congr fun q _ => value q)

theorem times_set {algs : List Algorithm} {i : Nat} {alg : Algorithm} (alg' : Algorithm)
    (here : algs[i]? = some alg) (same : alg'.id = alg.id) (n : Nat) :
    Algorithm.times n (algs.set i alg') = Algorithm.times n algs := by
  obtain ⟨bound, rfl⟩ := List.getElem?_eq_some_iff.mp here
  rw [Algorithm.times, List.map_set, same, ← List.getElem_map Algorithm.id (h := by simpa using bound),
    List.set_getElem_self, Algorithm.times]

theorem times_eraseIdx {algs : List Algorithm} {i : Nat} {alg : Algorithm}
    (here : algs[i]? = some alg) (n : Nat) :
    Algorithm.times n algs = Algorithm.times n [alg] + Algorithm.times n (algs.eraseIdx i) := by
  obtain ⟨bound, rfl⟩ := List.getElem?_eq_some_iff.mp here
  rw [← Algorithm.times_append]
  exact Algorithm.times_perm (List.getElem_cons_eraseIdx_perm bound).symm n

/-- Whatever the program does, it holds what the heap counts. -/
theorem step_holds {e : Event} (holds : s.Holds [] []) (taken : s.step e = some t) :
    t.Holds [] [] := by
  cases step_cases taken with
  | refused => exact holds
  | new addr t made =>
    have out : Holds { s with made := s.made + 1 } [] [⟨s.made, Wheel.new⟩] := by
      refine ⟨holds.owned, holds.single, holds.shared, holds.locked, fun n => ?_⟩
      rw [List.range_succ, List.count_append, ← holds.placed n]
      simp only [Algorithm.times, List.map_cons, List.map_nil, List.count_nil, strong, running]
      omega
    exact (fromInner_holds out ⟨.start rfl, rfl⟩ made).1
  | unlock i alg addr t here made =>
    have out : Holds { s with locked := s.locked.eraseIdx i } [] [alg] := by
      refine ⟨holds.owned, holds.single, holds.shared,
        fun x hx => holds.locked x (List.mem_of_mem_eraseIdx hx), fun n => ?_⟩
      refine Eq.trans ?_ (holds.placed n)
      rw [times_eraseIdx here n, Algorithm.times_nil]
      simp only [strong, running]
      omega
    exact (fromInner_holds out (holds.locked alg (List.mem_of_getElem? here)) made).1
  | clone p held =>
    have owned := holds.owned.addWeak (List.mem_append_right s.strong held)
    exact holds.handled (owned.perm (.refl _) List.perm_middle.symm) (Owned.value_addWeak s.heap p)
  | dropHandle p held =>
    have perm : s.weak.Perm (p :: (s.wheels ++ s.handles.erase p)) :=
      ((List.perm_cons_erase held).append_left s.wheels).trans List.perm_middle
    have owned := holds.owned.perm (.refl _) perm
    exact holds.handled owned.dropWeak
      (owned.value_dropWeak (List.mem_append_right _ List.mem_cons_self))
  | worked p t work => exact worked_holds holds work
  | returned p m work => exact release_holds (worked_holds holds work)
  | directLocked i e alg w here direct unwound stepped =>
    obtain ⟨reach, opened⟩ := holds.locked alg (List.mem_of_getElem? here)
    have next : (⟨alg.id, w⟩ : Algorithm).Sound 0 :=
      ⟨reach.next stepped, (Wheel.direct_opened direct unwound stepped).trans opened⟩
    refine holds.lay (fun x hx => ?_) fun n => ?_
    · rcases List.mem_or_eq_of_mem_set hx with hx | rfl
      · exact holds.locked x hx
      · exact next
    · rw [times_set ⟨alg.id, w⟩ here rfl, Algorithm.times_nil, Nat.zero_add]
  | lock p wheel resting =>
    obtain ⟨rest, -, -⟩ := unmake_spec holds wheel
    refine rest.lay (fun x hx => ?_) fun n => ?_
    · rcases List.mem_append.mp hx with out | hx
      · exact (unmade_sound holds wheel (Option.mem_toList.mp out)).1
      · exact holds.locked x hx
    · rw [Algorithm.times_append]
      rfl
  | drop p wheel =>
    obtain ⟨rest, -, -⟩ := unmake_spec holds wheel
    refine rest.lay rest.locked fun n => ?_
    show Algorithm.times n s.locked + Algorithm.times n ((s.unmake p).1.toList ++ s.destroyed) =
      Algorithm.times n (s.unmake p).1.toList + Algorithm.times n s.locked +
        Algorithm.times n s.destroyed
    rw [Algorithm.times_append]
    omega
  | dropLocked i alg here =>
    refine holds.lay (fun x hx => holds.locked x (List.mem_of_mem_eraseIdx hx)) fun n => ?_
    rw [← List.singleton_append, Algorithm.times_append, times_eraseIdx here n, Algorithm.times_nil]
    omega

end Moves

theorem run_holds {s : Program} {es : List Event} (run : exec step start es = some s) :
    s.Holds [] [] :=
  invariant_run (fun _ _ _ => step_holds) start_holds run

end Program
end Juggle.Dy
