import Juggle.Dy.Move

/-! What holds in every state of the dynamic wheel: the slab is sound, identities are
never shared, and the polling thread holds a key whose task is still the one it found. -/
namespace Juggle.Dy
open Juggle.Utils Juggle.Count

namespace Pc

/-- The task the sweep has in hand. -/
def subject : Pc → Option (TaskKey × Tid)
  | .chosen _ key tid => some (key, tid)
  | .polling _ key tid => some (key, tid)
  | .removing _ key tid => some (key, tid)
  | _ => none

/-- User code runs: outside of the wheel, in a poll or in a destructor. -/
def userCode : Pc → Bool
  | .idle => true
  | .returned _ => true
  | .polling _ _ _ => true
  | .dropping _ _ _ => true
  | _ => false

theorem pollingAt_eq_some {pc : Pc} {k : TaskKey} (h : pc.pollingAt = some k) :
    ∃ b tid, pc = .polling b k tid := by
  cases pc with
  | polling b key tid =>
    cases h
    exact ⟨b, tid, rfl⟩
  | _ => cases h

end Pc

namespace Wheel

/-- The effect of a step on the entry at one key. -/
inductive Look (s : Wheel) (e : Event) (s' : Wheel) (k : TaskKey) : Prop where
  | same (eq : s'.get k = s.get k)
  | spawn (params : SpawnParams) (event : e = .call (.register params))
      (answer : (s.alg.register (DynamicFuture.new s.nextTid params)).1 = some k)
      (fresh : s.get k = none) (eq : s'.get k = some (DynamicFuture.new s.nextTid params))
      (tids : s'.nextTid = s.nextTid + 1)
  | reason (task : DynamicFuture) (r : StopReason) (found : s.get k = some task)
      (eq : s'.get k = some (task.setStopReason r))
      (request : (r = .none ∧ e = .call (.resume k)) ∨ (r = .suspended ∧ e = .call (.suspend k)) ∨
        (r = .cancelled ∧ e = .call (.cancel k)))
  | wake (target : TaskRef) (task : DynamicFuture) (here : target.key = k)
      (found : s.get k = some task) (eq : s'.get k = some (task.setRunnable true))
      (event : e = .call (.wake target) ∨ ∃ i, e = .wakeStep i ∧ s.wakes[i]? = some ⟨target, .store⟩)
  | pollBegin (b : Beat) (tid : Tid) (task : DynamicFuture) (event : e = .run)
      (pc : s.pc = .chosen b k tid) (found : s.get k = some task)
      (eq : s'.get k = some ((task.setPolling true).setRunnable false))
      (pc' : s'.pc = .polling { b with anyPoll := true } k tid)
  | pollEnd (b : Beat) (tid : Tid) (event : e = .panic ∨ ∃ r, e = .done r)
      (pc : s.pc = .polling b k tid) (eq : s'.get k = (s.get k).map (DynamicFuture.setPolling false))
  | remove (b : Beat) (tid : Tid) (task : DynamicFuture) (event : e = .run)
      (pc : s.pc = .removing b k tid) (found : s.get k = some task) (eq : s'.get k = none)

theorem update_look {s s' : Wheel} {key k : TaskKey} {f : DynamicFuture → DynamicFuture}
    (slab : s'.slab = s.slab.update key f) :
    (k = key ∧ s'.get k = (s.get k).map f) ∨ (k ≠ key ∧ s'.get k = s.get k) := by
  have get_eq : s'.get k = (s.slab.update key f).get k := by
    rw [← slab]
    rfl
  by_cases here : k = key
  · subst here
    exact Or.inl ⟨rfl, get_eq.trans (ChunkSlab.get_update_self s.slab k f)⟩
  · exact Or.inr ⟨here, get_eq.trans (ChunkSlab.get_update_other s.slab f here)⟩

theorem Change.look {s s' : Wheel} {e : Event} (change : Change s e s') (k : TaskKey) :
    Look s e s' k := by
  cases change with
  | same slab count tids at_pc => exact .same (congrArg (fun slab => slab.get k) slab)
  | spawn params key event answer inserted count tids at_pc =>
    by_cases here : k = key
    · subst here
      exact .spawn params event answer inserted.fresh inserted.bound tids
    · exact .same (inserted.others k here)
  | reason key task r found request slab count tids at_pc =>
    rcases update_look (k := k) slab with ⟨rfl, eq⟩ | ⟨other, eq⟩
    · rw [found] at eq
      refine .reason task r found eq ?_
      rcases request with ⟨hr, held, event⟩ | ⟨hr, free, event⟩ | ⟨hr, live, event⟩
      · exact Or.inl ⟨hr, event⟩
      · exact Or.inr (Or.inl ⟨hr, event⟩)
      · exact Or.inr (Or.inr ⟨hr, event⟩)
    · exact .same eq
  | wake target task found identity event slab count tids at_pc =>
    rcases update_look (k := k) slab with ⟨here, eq⟩ | ⟨other, eq⟩
    · subst here
      rw [found] at eq
      exact .wake target task rfl found eq event
    · exact .same eq
  | pollBegin b key tid task event pc found pc' slab count tids =>
    rcases update_look (k := k) slab with ⟨rfl, eq⟩ | ⟨other, eq⟩
    · rw [found] at eq
      exact .pollBegin b tid task event pc found eq pc'
    · exact .same eq
  | pollEnd b key tid event pc slab count tids =>
    rcases update_look (k := k) slab with ⟨rfl, eq⟩ | ⟨other, eq⟩
    · exact .pollEnd b tid event pc eq
    · exact .same eq
  | remove b key tid task event pc found pc' removed count tids =>
    by_cases here : k = key
    · subst here
      exact .remove b tid task event pc found removed.gone
    · exact .same (removed.others k here)

theorem Change.wf {s s' : Wheel} {e : Event} (change : Change s e s') (wf : s.slab.WellFormed) :
    s'.slab.WellFormed := by
  cases change with
  | same slab => exact slab ▸ wf
  | spawn params key event answer inserted => exact inserted.wf
  | reason key task r found request slab => exact slab ▸ ChunkSlab.update_wellFormed wf key _
  | wake target task found identity event slab =>
    exact slab ▸ ChunkSlab.update_wellFormed wf target.key _
  | pollBegin b key tid task event pc found pc' slab =>
    exact slab ▸ ChunkSlab.update_wellFormed wf key _
  | pollEnd b key tid event pc slab => exact slab ▸ ChunkSlab.update_wellFormed wf key _
  | remove b key tid task event pc found pc' removed => exact removed.wf

theorem Change.nextTid_le {s s' : Wheel} {e : Event} (change : Change s e s') :
    s.nextTid ≤ s'.nextTid := by
  cases change with
  | same slab count tids => exact tids
  | spawn params key event answer inserted count tids => exact tids ▸ Nat.le_succ s.nextTid
  | reason key task r found request slab count tids => exact Nat.le_of_eq tids.symm
  | wake target task found identity event slab count tids => exact Nat.le_of_eq tids.symm
  | pollBegin b key tid task event pc found pc' slab count tids => exact Nat.le_of_eq tids.symm
  | pollEnd b key tid event pc slab count tids => exact Nat.le_of_eq tids.symm
  | remove b key tid task event pc found pc' removed count tids => exact Nat.le_of_eq tids.symm

/-- Only a registration can add a chunk. -/
theorem Change.capacity_eq {s s' : Wheel} {e : Event} (change : Change s e s')
    (closed : ∀ params, e ≠ .call (.register params)) : s'.slab.capacity = s.slab.capacity := by
  cases change with
  | same slab => rw [slab]
  | spawn params key event => exact absurd event (closed params)
  | reason key task r found request slab => rw [slab, ChunkSlab.capacity_update]
  | wake target task found identity event slab => rw [slab, ChunkSlab.capacity_update]
  | pollBegin b key tid task event pc found pc' slab => rw [slab, ChunkSlab.capacity_update]
  | pollEnd b key tid event pc slab => rw [slab, ChunkSlab.capacity_update]
  | remove b key tid task event pc found pc' removed => exact removed.capacity

theorem call_open {s s' : Wheel} {c : Call} (h : s.step (.call c) = some s') :
    s.pc.userCode = true := by
  cases pc : s.pc with
  | idle => rfl
  | returned => rfl
  | polling => rfl
  | dropping => rfl
  | _ => simp [step, call, pc] at h

/-- A step that is neither a handle call nor a wake. -/
def ownStep : Event → Bool
  | .call _ => false
  | .wakeBegin _ => false
  | .wakeStep _ => false
  | _ => true

namespace Look

/-- A task stays at its key, except where the sweep removes it. -/
theorem keeps {s s' : Wheel} {e : Event} {k : TaskKey} {task : DynamicFuture} (look : Look s e s' k)
    (found : s.get k = some task) (kept : e = .run → ∀ b tid, s.pc ≠ .removing b k tid) :
    ∃ task', s'.get k = some task' ∧ task'.tid = task.tid := by
  cases look with
  | same eq => exact ⟨task, eq.trans found, rfl⟩
  | spawn params event answer fresh => rw [fresh] at found; cases found
  | reason old r hold eq =>
    rw [hold] at found
    cases found
    exact ⟨_, eq, rfl⟩
  | wake target old here hold eq =>
    rw [hold] at found
    cases found
    exact ⟨_, eq, rfl⟩
  | pollBegin b tid old event pc hold eq =>
    rw [hold] at found
    cases found
    exact ⟨_, eq, rfl⟩
  | pollEnd b tid event pc eq =>
    rw [found] at eq
    exact ⟨_, eq, rfl⟩
  | remove b tid old event pc => exact absurd pc (kept event b tid)

/-- An entry was there before, with the same identity, or it was just spawned. -/
theorem origin {s s' : Wheel} {e : Event} {k : TaskKey} {task' : DynamicFuture}
    (look : Look s e s' k) (found : s'.get k = some task') :
    (∃ task, s.get k = some task ∧ task.tid = task'.tid) ∨
    ∃ params, e = .call (.register params) ∧ s.get k = none ∧
      (s.alg.register (DynamicFuture.new s.nextTid params)).1 = some k ∧
      task' = DynamicFuture.new s.nextTid params ∧ s'.nextTid = s.nextTid + 1 := by
  cases look with
  | same eq => exact Or.inl ⟨task', eq.symm.trans found, rfl⟩
  | spawn params event answer fresh eq tids =>
    rw [eq] at found
    exact Or.inr ⟨params, event, fresh, answer, (Option.some.inj found).symm, tids⟩
  | reason task r hold eq =>
    rw [eq] at found
    cases found
    exact Or.inl ⟨task, hold, rfl⟩
  | wake target task here hold eq =>
    rw [eq] at found
    cases found
    exact Or.inl ⟨task, hold, rfl⟩
  | pollBegin b tid task event pc hold eq =>
    rw [eq] at found
    cases found
    exact Or.inl ⟨task, hold, rfl⟩
  | pollEnd b tid event pc eq =>
    rw [found] at eq
    obtain ⟨task, hold, rfl⟩ := Option.map_eq_some_iff.mp eq.symm
    exact Or.inl ⟨task, hold, rfl⟩
  | remove b tid task event pc hold eq => rw [eq] at found; cases found

/-- Where no user code runs, only a wake can reach the entries between two steps of the
polling thread. -/
theorem closed {s s' : Wheel} {e : Event} {k : TaskKey} (look : Look s e s' k)
    (h : s.step e = some s') (shut : s.pc.userCode = false) (quiet : e ≠ .run) :
    s'.get k = s.get k ∨
      ∃ task, s.get k = some task ∧ s'.get k = some (task.setRunnable true) := by
  have silent : ∀ c, e ≠ .call c := by
    rintro c rfl
    rw [call_open h] at shut
    cases shut
  cases look with
  | same eq => exact Or.inl eq
  | spawn params event => exact absurd event (silent _)
  | reason task r found eq request =>
    rcases request with ⟨_, event⟩ | ⟨_, event⟩ | ⟨_, event⟩
    · exact absurd event (silent _)
    · exact absurd event (silent _)
    · exact absurd event (silent _)
  | wake target task here found eq => exact Or.inr ⟨task, found, eq⟩
  | pollBegin b tid task event => exact absurd event quiet
  | pollEnd b tid event pc => rw [pc] at shut; cases shut
  | remove b tid task event => exact absurd event quiet

/-- Handle calls and wakes apart, only the task in hand changes, and only in a step of
the scheduler or at the end of its poll. -/
theorem undisturbed {s s' : Wheel} {e : Event} {k : TaskKey} (look : Look s e s' k)
    (own : ownStep e = true)
    (other : e = .run ∨ s.pc.pollingAt = some k → ∀ tid, s.pc.subject ≠ some (k, tid)) :
    s'.get k = s.get k := by
  cases look with
  | same eq => exact eq
  | spawn params event => subst event; cases own
  | reason task r found eq request =>
    rcases request with ⟨_, event⟩ | ⟨_, event⟩ | ⟨_, event⟩ <;> subst event <;> cases own
  | wake target task here found eq event =>
    rcases event with event | ⟨i, event, _⟩ <;> subst event <;> cases own
  | pollBegin b tid task event pc => exact absurd (by rw [pc]; rfl) (other (Or.inl event) tid)
  | pollEnd b tid event pc =>
    exact absurd (by rw [pc]; rfl) (other (Or.inr (by rw [pc]; rfl)) tid)
  | remove b tid task event pc => exact absurd (by rw [pc]; rfl) (other (Or.inl event) tid)

/-- The end of a poll touches the polling flag only. -/
theorem finished {s s' : Wheel} {r : Bool} {k : TaskKey} (look : Look s (.done r) s' k) :
    s'.get k = s.get k ∨ s'.get k = (s.get k).map (DynamicFuture.setPolling false) := by
  cases look with
  | same eq => exact Or.inl eq
  | spawn params event => cases event
  | reason task r found eq request => simp at request
  | wake target task here found eq event => simp at event
  | pollBegin b tid task event => cases event
  | pollEnd b tid event pc eq => exact Or.inr eq
  | remove b tid task event => cases event

theorem sweeping {s s' : Wheel} {b : Beat} {n k : TaskKey} (look : Look s .run s' k)
    (pc : s.pc = .sweep b n) : s'.get k = s.get k :=
  look.undisturbed rfl (fun _ tid => by rw [pc]; exact nofun)

end Look

structure Consistent (s : Wheel) : Prop where
  wf : s.slab.WellFormed
  old : ∀ k task, s.get k = some task → task.tid < s.nextTid
  unique : ∀ j k task task', s.get j = some task → s.get k = some task' → task.tid = task'.tid → j = k
  subject : ∀ k tid, s.pc.subject = some (k, tid) → ∃ task, s.get k = some task ∧ task.tid = tid
  polling : ∀ k task, s.get k = some task → (task.polling = true ↔ s.pc.pollingAt = some k)
  chosen : ∀ b k tid, s.pc = .chosen b k tid → ∃ task, s.get k = some task ∧
    task.stopReason = .none ∧ task.runnable = true
  range : ∀ b, s.pc = .sweep b 0 → b.cap = s.slab.capacity

theorem new_consistent : Consistent new where
  wf := ChunkSlab.new_wellFormed
  old := fun k task found => by cases found
  unique := fun j k task task' found => by cases found
  subject := nofun
  polling := fun k task found => by cases found
  chosen := nofun
  range := nofun

section Step
variable {s s' : Wheel} {e : Event}

theorem old_step (con : Consistent s) (change : Change s e s') (k : TaskKey) (task' : DynamicFuture)
    (found : s'.get k = some task') : task'.tid < s'.nextTid := by
  rcases (change.look k).origin found with ⟨task, before, same⟩ | ⟨params, _, _, _, rfl, tids⟩
  · have small := con.old k task before
    exact same ▸ Nat.lt_of_lt_of_le small change.nextTid_le
  · rw [tids]
    exact Nat.lt_succ_self s.nextTid

theorem unique_step (con : Consistent s) (change : Change s e s') (j k : TaskKey)
    (task task' : DynamicFuture) (hj : s'.get j = some task) (hk : s'.get k = some task')
    (same : task.tid = task'.tid) : j = k := by
  rcases (change.look j).origin hj with ⟨u, hu, tu⟩ | ⟨params, event, _, answer, new, _⟩
  · rcases (change.look k).origin hk with ⟨v, hv, tv⟩ | ⟨params', _, _, _, new', _⟩
    · exact con.unique j k u v hu hv (by rw [tu, tv, same])
    · have small := con.old j u hu
      rw [tu, same, new'] at small
      exact absurd small (Nat.lt_irrefl _)
  · rcases (change.look k).origin hk with ⟨v, hv, tv⟩ | ⟨params', event', _, answer', new', _⟩
    · have small := con.old k v hv
      rw [tv, ← same, new] at small
      exact absurd small (Nat.lt_irrefl _)
    · rw [event] at event'
      cases event'
      rw [answer] at answer'
      exact Option.some.inj answer'

/-- The task in hand is at the key where the sweep found it. -/
theorem subject_held (con : Consistent s) (change : Change s e s') {k : TaskKey} {tid : Tid}
    (held : s.pc.subject = some (k, tid)) (kept : e = .run → ∀ b tid, s.pc ≠ .removing b k tid) :
    ∃ task, s'.get k = some task ∧ task.tid = tid := by
  obtain ⟨task, found, identity⟩ := con.subject k tid held
  obtain ⟨task', found', same⟩ := (change.look k).keeps found kept
  exact ⟨task', found', same.trans identity⟩

theorem subject_step (con : Consistent s) (change : Change s e s') (move : Move s e s') (k : TaskKey)
    (tid : Tid) (held : s'.pc.subject = some (k, tid)) : ∃ task, s'.get k = some task ∧ task.tid = tid := by
  cases move with
  | stay pc' beats quiet =>
    rw [pc'] at held
    exact subject_held con change held (fun run => absurd run quiet)
  | choose b key task event pc inside found reason runnable pc' beats =>
    rw [pc'] at held
    cases held
    exact (change.look _).keeps found (by simp [pc])
  | condemn b key task event pc inside found reason pc' beats =>
    rw [pc'] at held
    cases held
    exact (change.look _).keeps found (by simp [pc])
  | pollBegin b key tid event pc pc' beats =>
    rw [pc'] at held
    cases held
    exact subject_held con change (by rw [pc]; rfl) (by simp [pc])
  | ready b key tid event pc pc' beats =>
    rw [pc'] at held
    cases held
    exact subject_held con change (by rw [pc]; rfl) (by simp [pc])
  | ended b key event pc past ended beats =>
    cases hpc : s'.pc with
    | chosen => rw [hpc] at ended; cases ended
    | polling => rw [hpc] at ended; cases ended
    | removing => rw [hpc] at ended; cases ended
    | _ => rw [hpc] at held; cases held
  | _ => simp_all [Pc.subject]

theorem polling_step (con : Consistent s) (change : Change s e s') (k : TaskKey) (task' : DynamicFuture)
    (found : s'.get k = some task') : task'.polling = true ↔ s'.pc.pollingAt = some k := by
  -- the one key at which a step can touch the flag is the one the polling thread stands at
  have kept : s'.get k = s.get k → (s'.pc.pollingAt = some k ↔ s.pc.pollingAt = some k) →
      (task'.polling = true ↔ s'.pc.pollingAt = some k) := by
    intro same at_pc
    rw [at_pc]
    exact con.polling k task' (same.symm.trans found)
  cases change with
  | same slab count tids at_pc =>
    exact kept (congrArg (fun slab => slab.get k) slab) (by rw [at_pc])
  | spawn params key event answer inserted count tids at_pc =>
    by_cases here : k = key
    · subst here
      have value : DynamicFuture.new s.nextTid params = task' :=
        Option.some.inj (inserted.bound.symm.trans found)
      have vacant : s.pc.pollingAt ≠ some k := by
        intro polling
        obtain ⟨b, tid, pc⟩ := Pc.pollingAt_eq_some polling
        obtain ⟨task, hold, _⟩ := con.subject k tid (by rw [pc]; rfl)
        exact absurd (inserted.fresh.symm.trans hold) nofun
      rw [← value, at_pc]
      exact ⟨nofun, fun polling => absurd polling vacant⟩
    · exact kept (inserted.others k here) (by rw [at_pc])
  | reason key task r hold request slab count tids at_pc =>
    rcases update_look (k := k) slab with ⟨rfl, eq⟩ | ⟨other, eq⟩
    · rw [hold, found] at eq
      cases eq
      rw [at_pc]
      exact con.polling k task hold
    · exact kept eq (by rw [at_pc])
  | wake target task hold identity event slab count tids at_pc =>
    rcases update_look (k := k) slab with ⟨rfl, eq⟩ | ⟨other, eq⟩
    · rw [hold, found] at eq
      cases eq
      rw [at_pc]
      exact con.polling target.key task hold
    · exact kept eq (by rw [at_pc])
  | pollBegin b key tid task event pc hold pc' slab count tids =>
    rcases update_look (k := k) slab with ⟨rfl, eq⟩ | ⟨other, eq⟩
    · rw [hold, found] at eq
      cases eq
      simp [pc', Pc.pollingAt, DynamicFuture.setPolling, DynamicFuture.setRunnable]
    · exact kept eq (by simp [pc, pc', Pc.pollingAt, Ne.symm other])
  | pollEnd b key tid event pc slab count tids at_pc =>
    rcases update_look (k := k) slab with ⟨rfl, eq⟩ | ⟨other, eq⟩
    · rw [found] at eq
      obtain ⟨task, hold, rfl⟩ := Option.map_eq_some_iff.mp eq.symm
      simp [at_pc, DynamicFuture.setPolling]
    · exact kept eq (by rw [at_pc, pc]; simp [Pc.pollingAt, Ne.symm other])
  | remove b key tid task event pc hold pc' removed count tids =>
    by_cases here : k = key
    · subst here
      exact absurd (removed.gone.symm.trans found) nofun
    · exact kept (removed.others k here) (by simp [pc, pc', Pc.pollingAt])

theorem chosen_step (con : Consistent s) (h : s.step e = some s') (change : Change s e s')
    (move : Move s e s') (b : Beat) (k : TaskKey) (tid : Tid) (pc' : s'.pc = .chosen b k tid) :
    ∃ task, s'.get k = some task ∧ task.stopReason = .none ∧ task.runnable = true := by
  cases move with
  | stay pc'' beats quiet =>
    have pc : s.pc = .chosen b k tid := pc''.symm.trans pc'
    obtain ⟨task, found, reason, runnable⟩ := con.chosen b k tid pc
    rcases (change.look k).closed h (by rw [pc]; rfl) quiet with same | ⟨old, hold, eq⟩
    · exact ⟨task, same.trans found, reason, runnable⟩
    · rw [found] at hold
      cases hold
      exact ⟨task.setRunnable true, eq, reason, rfl⟩
  | choose b' key task event pc inside found reason runnable pc'' beats =>
    rw [pc''] at pc'
    cases pc'
    subst event
    exact ⟨task, ((change.look k).sweeping pc).trans found, reason, runnable⟩
  | ended b' key event pc past ended beats =>
    rw [pc'] at ended
    cases ended
  | _ => simp_all

theorem range_step (con : Consistent s) (h : s.step e = some s') (change : Change s e s')
    (move : Move s e s') (b : Beat) (pc' : s'.pc = .sweep b 0) : b.cap = s'.slab.capacity := by
  cases move with
  | stay pc'' beats quiet =>
    have pc : s.pc = .sweep b 0 := pc''.symm.trans pc'
    rw [con.range b pc, change.capacity_eq]
    rintro params rfl
    exact absurd (call_open h) (by rw [pc]; exact nofun)
  | begins second event begins pc'' beats =>
    rw [pc''] at pc'
    cases pc'
    exact (change.capacity_eq (by simp [event])).symm
  | ended b' key event pc past ended beats =>
    rw [pc'] at ended
    cases ended
  | _ => simp_all

theorem step_consistent (con : Consistent s) (h : s.step e = some s') : Consistent s' :=
  have change := step_change con.wf h
  have move := step_move con.wf h
  { wf := change.wf con.wf
    old := old_step con change
    unique := unique_step con change
    subject := subject_step con change move
    polling := polling_step con change
    chosen := chosen_step con h change move
    range := range_step con h change move }

end Step

/-- The wheel's own panics are out of reach: the task in hand is there and not being polled. -/
theorem Consistent.unbroken {s : Wheel} (con : Consistent s)
    (lost : (∃ b key tid, s.pc = .removing b key tid ∧ s.get key = none) ∨
      ∃ b key tid, s.pc = .chosen b key tid ∧ ∀ task, s.get key = some task → task.polling = true) :
    False := by
  rcases lost with ⟨b, key, tid, pc, none⟩ | ⟨b, key, tid, pc, nested⟩
  · obtain ⟨task, found, _⟩ := con.subject key tid (by rw [pc]; rfl)
    exact absurd (none.symm.trans found) nofun
  · obtain ⟨task, found, _⟩ := con.subject key tid (by rw [pc]; rfl)
    have at_pc := (con.polling key task found).mp (nested task found)
    rw [pc] at at_pc
    cases at_pc

/-- `Registry::remove` finds the task that the sweep has in hand. -/
theorem remove_found {s s' : Wheel} {b : Beat} {key : TaskKey} {tid : Tid} (con : Consistent s)
    (pc : s.pc = .removing b key tid) (h : s.step .run = some s') :
    ∃ task, s.get key = some task ∧ task.tid = tid ∧ ChunkSlab.Removed s.slab key task s'.slab ∧
      s'.alg.suspendedCount = s.alg.suspendedCount := by
  obtain ⟨task, found, identity⟩ := con.subject key tid (by rw [pc]; rfl)
  obtain ⟨after, eq, removed⟩ := ChunkSlab.remove_some con.wf found
  have eq' : s.alg.registry.slab.remove key = (some task, after) := eq
  simp only [step, run, pc, remove, Registry.remove, eq'] at h
  cases h
  exact ⟨task, found, identity, removed, rfl⟩

theorem run_consistent {s t : Wheel} {es : List Event} (con : Consistent s)
    (run : Runs.exec step s es = some t) : Consistent t :=
  Runs.invariant_run (fun _ _ _ => step_consistent) con run

theorem reachable_consistent {s : Wheel} (reach : Runs.Reachable step (fun s => s = new) s) :
    Consistent s :=
  Runs.invariant_reachable (fun _ start => start ▸ new_consistent) (fun _ _ _ => step_consistent) reach

end Wheel
end Juggle.Dy
