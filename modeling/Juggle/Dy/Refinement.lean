import Juggle.Dy.Invariant
import Juggle.Dy.Promises
import Juggle.Utils.SlabMap

/-! The dynamic wheel is a roster: every run of it, with all the wakes of other threads
and every panic, shows a path of the abstract one, from the empty roster to the roster
that the registry of the wheel spells out. -/
namespace Juggle.Dy
open Juggle.Utils Juggle.Traces Juggle.Runs

def Member.of (task : DynamicFuture) : Member :=
  ⟨task.tid, task.name, task.stopReason, task.runnable⟩

/-- The members that a registry holds. -/
def members (slab : ChunkSlab TaskKey DynamicFuture) (k : TaskKey) : Option Member :=
  (slab.get k).map Member.of

section Members
variable {slab after : ChunkSlab TaskKey DynamicFuture}

theorem members_some {k : TaskKey} {task : DynamicFuture} (found : slab.get k = some task) :
    members slab k = some (Member.of task) := by
  simp [members, found]

theorem members_none {k : TaskKey} (free : slab.get k = none) : members slab k = none := by
  simp [members, free]

theorem members_update {k : TaskKey} {task : DynamicFuture} (f : DynamicFuture → DynamicFuture)
    (found : slab.get k = some task) :
    members (slab.update k f) = Function.update (members slab) k (some (Member.of (f task))) := by
  funext j
  by_cases here : j = k
  · subst here
    simp [members, ChunkSlab.get_update_self, found]
  · simp [members, ChunkSlab.get_update_other slab f here, here]

/-- Writing what no handle can see. -/
theorem members_update_blind {k : TaskKey} {f : DynamicFuture → DynamicFuture}
    (blind : ∀ task, Member.of (f task) = Member.of task) :
    members (slab.update k f) = members slab := by
  funext j
  by_cases here : j = k
  · subst here
    simp [members, ChunkSlab.get_update_self, Function.comp_def, blind]
  · simp [members, ChunkSlab.get_update_other slab f here]

theorem members_lowered (slab : ChunkSlab TaskKey DynamicFuture) (key : TaskKey) :
    members (slab.update key (DynamicFuture.setPolling false)) = members slab :=
  members_update_blind (fun _ => rfl)

theorem members_inserted {k : TaskKey} {task : DynamicFuture}
    (inserted : ChunkSlab.Inserted slab task k after) :
    members after = Function.update (members slab) k (some (Member.of task)) := by
  funext j
  by_cases here : j = k
  · subst here
    simp [members, inserted.bound]
  · simp [members, inserted.others j here, here]

theorem members_removed {k : TaskKey} {task : DynamicFuture}
    (removed : ChunkSlab.Removed slab k task after) :
    members after = Function.update (members slab) k none := by
  funext j
  by_cases here : j = k
  · subst here
    simp [members, removed.gone]
  · simp [members, removed.others j here, here]

/-- `len` counts the keys in use. -/
theorem ncard_members (wf : slab.WellFormed) :
    Set.ncard {k | (members slab k).isSome = true} = slab.len := by
  have ascending : (slab.iter.map Prod.fst).Pairwise (· < ·) :=
    List.pairwise_map.mpr (ChunkSlab.iter_ascending wf)
  have nodup : (slab.iter.map Prod.fst).Nodup := ascending.imp Nat.ne_of_lt
  have keys : {k | (members slab k).isSome = true} = ↑(slab.iter.map Prod.fst).toFinset := by
    ext k
    simp only [members, Option.isSome_map, Set.mem_ofPred_eq, Finset.mem_coe, List.mem_toFinset,
      List.mem_map, Option.isSome_iff_exists]
    constructor
    · rintro ⟨task, found⟩
      exact ⟨(k, task), (ChunkSlab.mem_iter wf k task).mpr found, rfl⟩
    · rintro ⟨⟨j, task⟩, listed, rfl⟩
      exact ⟨task, (ChunkSlab.mem_iter wf j task).mp listed⟩
  rw [keys, Set.ncard_coe_finset, List.toFinset_card_of_nodup nodup, List.length_map,
    ChunkSlab.length_iter wf]

/-- The test that both schedulers make in `get_by_name`. -/
def called (name : String) (task : DynamicFuture) : Bool := decide (task.name.asStr = some name)

end Members

/-- What a handle call answers and what it does to the registry, whatever else the
scheduler has to keep. -/
inductive Booked (slab : ChunkSlab TaskKey DynamicFuture) (tid : Tid) :
    Call → Answer → ChunkSlab TaskKey DynamicFuture → Tid → Prop where
  | register (params : SpawnParams) (k : TaskKey) (after : ChunkSlab TaskKey DynamicFuture)
      (inserted : slab.Inserted (DynamicFuture.new tid params) k after) :
      Booked slab tid (.register params) (.key (some k)) after (tid + 1)
  | granted (c : Call) (k : TaskKey) (f : StopReason → Option StopReason) (task : DynamicFuture)
      (r : StopReason) (request : c.request = some (k, f)) (found : slab.get k = some task)
      (allowed : f task.stopReason = some r) :
      Booked slab tid c (.flag true) (slab.update k (DynamicFuture.setStopReason r)) tid
  | refused (c : Call) (k : TaskKey) (f : StopReason → Option StopReason)
      (request : c.request = some (k, f))
      (denied : ∀ task, slab.get k = some task → f task.stopReason = none) :
      Booked slab tid c (.flag false) slab tid
  | getState (k : TaskKey) : Booked slab tid (.getState k)
      (.state (((slab.get k).map fun task => (Member.of task).state).getD .inactive)) slab tid
  | named (name : String) (k : TaskKey) (task : DynamicFuture) (found : slab.get k = some task)
      (here : called name task = true)
      (first : ∀ j task, slab.get j = some task → called name task = true → k ≤ j) :
      Booked slab tid (.getByName name) (.key (some k)) slab tid
  | unnamed (name : String)
      (nobody : ∀ j task, slab.get j = some task → called name task = false) :
      Booked slab tid (.getByName name) (.key none) slab tid
  | registeredCount : Booked slab tid .registeredCount (.count slab.len) slab tid

/-- Such a call is answered as the roster answers it. -/
theorem Booked.answers {slab after : ChunkSlab TaskKey DynamicFuture} {tid tid' : Tid} {c : Call}
    {a : Answer} (served : Booked slab tid c a after tid') (wf : slab.WellFormed) {m n : Roster}
    (before : m.tasks = members slab) (used : m.nextTid = tid) (tasks : n.tasks = members after)
    (tids : n.nextTid = tid') (polled : n.polled = m.polled) (leaving : n.leaving = m.leaving) :
    m.Answers c a n := by
  have eq : ∀ k : Roster, k.tasks = members after → k.polled = m.polled →
      k.leaving = m.leaving → k.nextTid = tid' → k = n := fun k tasks' polled' leaving' tids' =>
    Roster.ext (tasks'.trans tasks.symm) (polled'.trans polled.symm) (leaving'.trans leaving.symm)
      (tids'.trans tids.symm)
  have named : ∀ name k, m.Named name k → ∃ task, slab.get k = some task ∧ called name task = true := by
    rintro name k ⟨e, found, same⟩
    rw [before] at found
    obtain ⟨task, hold, rfl⟩ := Option.map_eq_some_iff.mp found
    exact ⟨task, hold, decide_eq_true same⟩
  cases served with
  | register params k _ inserted =>
    have entered : { m.set k (some (Member.new m.nextTid params)) with nextTid := m.nextTid + 1 } = n :=
      eq _ (by rw [members_inserted inserted, ← before, used]; rfl) rfl rfl (congrArg (· + 1) used)
    rw [← entered]
    exact .register params k (by rw [before]; exact members_none inserted.fresh)
  | granted _ k f task r request found allowed =>
    have asked : m.ask k f = some (Member.of (task.setStopReason r)) := by
      simp [Roster.ask, before, members_some found, Member.of, allowed, DynamicFuture.setStopReason]
    rw [← eq (m.set k (some (Member.of (task.setStopReason r))))
      (by rw [members_update _ found, ← before]; rfl) rfl rfl used]
    exact .granted c k f _ request asked
  | refused _ k f request denied =>
    have asked : m.ask k f = none := by
      cases found : slab.get k with
      | none => simp [Roster.ask, before, members_none found]
      | some task => simp [Roster.ask, before, members_some found, Member.of, denied task found]
    rw [← eq m before rfl rfl used]
    exact .refused c k f request asked
  | getState k =>
    have told : m.state k = ((slab.get k).map fun task => (Member.of task).state).getD .inactive := by
      rw [Roster.state, before, members, Option.map_map]
      rfl
    rw [← eq m before rfl rfl used, ← told]
    exact .getState k
  | named name k task found here first =>
    rw [← eq m before rfl rfl used]
    refine .named name k
      ⟨Member.of task, by rw [before]; exact members_some found, of_decide_eq_true here⟩ ?_
    intro j other
    obtain ⟨task', found', here'⟩ := named name j other
    exact first j task' found' here'
  | unnamed name nobody =>
    rw [← eq m before rfl rfl used]
    refine .unnamed name fun k other => ?_
    obtain ⟨task, found, here⟩ := named name k other
    rw [nobody k task found] at here
    cases here
  | registeredCount =>
    have told : m.live.ncard = slab.len := by
      rw [Roster.live, before]
      exact ncard_members wf
    rw [← eq m before rfl rfl used, ← told]
    exact .registeredCount

/-- A request is granted where the stop reason allows it, and writes nothing else. -/
def settled (slab : ChunkSlab TaskKey DynamicFuture) (tid : Tid) (k : TaskKey)
    (f : StopReason → Option StopReason) : Answer × ChunkSlab TaskKey DynamicFuture × Tid :=
  match (slab.get k).bind fun task => f task.stopReason with
  | some r => (.flag true, slab.update k (DynamicFuture.setStopReason r), tid)
  | none => (.flag false, slab, tid)

/-- What a scheduler has to show of its own handle calls. -/
structure Serves (slab : ChunkSlab TaskKey DynamicFuture) (tid : Tid)
    (outcome : Call → Answer × ChunkSlab TaskKey DynamicFuture × Tid) : Prop where
  register : ∀ params, ∃ k after, slab.Inserted (DynamicFuture.new tid params) k after ∧
    outcome (.register params) = (.key (some k), after, tid + 1)
  request : ∀ c k f, c.request = some (k, f) → outcome c = settled slab tid k f
  state : ∀ k, outcome (.getState k) =
    (.state (((slab.get k).map fun task => (Member.of task).state).getD .inactive), slab, tid)
  byName : ∀ name, ∃ a, Booked slab tid (.getByName name) a slab tid ∧
    outcome (.getByName name) = (a, slab, tid)
  count : outcome .registeredCount = (.count slab.len, slab, tid)

section Serves
variable {slab : ChunkSlab TaskKey DynamicFuture} {tid : Tid}
  {outcome : Call → Answer × ChunkSlab TaskKey DynamicFuture × Tid}

theorem Serves.requested (serves : Serves slab tid outcome) {c : Call} {k : TaskKey}
    {f : StopReason → Option StopReason} (request : c.request = some (k, f)) :
    Booked slab tid c (outcome c).1 (outcome c).2.1 (outcome c).2.2 := by
  rw [serves.request c k f request, settled]
  cases allowed : (slab.get k).bind fun task => f task.stopReason with
  | some r =>
    obtain ⟨task, found, allowed⟩ := Option.bind_eq_some_iff.mp allowed
    exact .granted c k f task r request found allowed
  | none =>
    refine .refused c k f request fun task found => ?_
    rw [found] at allowed
    exact allowed

theorem Serves.booked (serves : Serves slab tid outcome) {c : Call}
    (plain : ∀ target, c ≠ .wake target) :
    Booked slab tid c (outcome c).1 (outcome c).2.1 (outcome c).2.2 := by
  cases c with
  | register params =>
    obtain ⟨k, after, inserted, told⟩ := serves.register params
    rw [told]
    exact .register params k after inserted
  | suspend key => exact serves.requested rfl
  | resume key => exact serves.requested rfl
  | cancel key => exact serves.requested rfl
  | getState key =>
    rw [serves.state key]
    exact .getState key
  | getByName name =>
    obtain ⟨a, served, told⟩ := serves.byName name
    rw [told]
    exact served
  | registeredCount =>
    rw [serves.count]
    exact .registeredCount
  | wake target => exact absurd rfl (plain target)

end Serves

/-- `get_state` of both schedulers. -/
theorem state_told (found : Option DynamicFuture) :
    (match found with
      | some task =>
        match task.stopReason with
        | .cancelled => .cancelled
        | .suspended => .suspended
        | .none => if task.runnable then .runnable else .waiting
      | none => State.inactive) = (found.map fun task => (Member.of task).state).getD .inactive := by
  cases found with
  | none => rfl
  | some task =>
    cases reason : task.stopReason <;>
      simp only [Option.map_some, Option.getD_some, Member.of, Member.state, reason]
    rfl

/-- What the store of a wake does: it reaches the task that the waker was made for, or no
task at all. -/
inductive Woken (slab : ChunkSlab TaskKey DynamicFuture) (target : TaskRef) :
    ChunkSlab TaskKey DynamicFuture → Prop where
  | reached (task : DynamicFuture) (found : slab.get target.key = some task)
      (identity : task.tid = target.tid) :
      Woken slab target (slab.update target.key (DynamicFuture.setRunnable true))
  | stale (gone : ∀ task, slab.get target.key = some task → task.tid ≠ target.tid) :
      Woken slab target slab

theorem Woken.store {slab after : ChunkSlab TaskKey DynamicFuture} {target : TaskRef}
    (stored : after = match slab.get target.key with
      | some task =>
        if task.tid = target.tid then slab.update target.key (DynamicFuture.setRunnable true) else slab
      | none => slab) : Woken slab target after := by
  subst stored
  cases found : slab.get target.key with
  | none => exact .stale (by simp [found])
  | some task =>
    by_cases identity : task.tid = target.tid
    · simp only [if_pos identity]
      exact .reached task found identity
    · simp only [if_neg identity]
      exact .stale (by simpa [found] using identity)

theorem Woken.wake {slab after : ChunkSlab TaskKey DynamicFuture} {target : TaskRef}
    (woken : Woken slab target after) {m n : Roster} (before : m.tasks = members slab)
    (tasks : n.tasks = members after) (tids : n.nextTid = m.nextTid) (polled : n.polled = m.polled)
    (leaving : n.leaving = m.leaving) : n = m.wake target := by
  cases woken with
  | reached task found identity =>
    have here : m.tasks target.key = some (Member.of task) := by
      rw [before]
      exact members_some found
    have same : (Member.of task).tid = target.tid := identity
    simp only [Roster.wake, here]
    rw [if_pos same]
    refine Roster.ext ?_ polled leaving tids
    rw [tasks, members_update _ found, ← before]
    rfl
  | stale gone =>
    have still : n = m := Roster.ext (tasks.trans before.symm) polled leaving tids
    cases found : slab.get target.key with
    | none =>
      have none : m.tasks target.key = none := by
        rw [before]
        exact members_none found
      simp only [Roster.wake, none, still]
    | some task =>
      have here : m.tasks target.key = some (Member.of task) := by
        rw [before]
        exact members_some found
      have other : ¬ (Member.of task).tid = target.tid := gone task found
      simp only [Roster.wake, here, other, if_false, still]

theorem UnorderedAlgorithm.getByName_eq (alg : UnorderedAlgorithm) (name : String) :
    alg.getByName name = (List.range alg.registry.slab.capacity).find?
      fun k => (alg.registry.slab.get k).any (called name) := by
  unfold UnorderedAlgorithm.getByName
  refine congrArg (fun p => List.find? p _) (funext fun k => ?_)
  change _ = (alg.registry.get k).any (called name)
  cases alg.registry.get k <;> rfl

namespace Pc

def polled : Pc → Option TaskRef
  | .polling _ key tid => some ⟨key, tid⟩
  | _ => none

def leaving : Pc → Option TaskRef
  | .removing _ key tid => some ⟨key, tid⟩
  | _ => none

end Pc

namespace Wheel

/-- The answer of a handle call. -/
def answer (s : Wheel) : Call → Answer
  | .register params => .key (s.alg.register (DynamicFuture.new s.nextTid params)).1
  | .suspend key => .flag (s.alg.suspend key).1
  | .resume key => .flag (s.alg.resume key).1
  | .cancel key => .flag (s.alg.cancel key).1
  | .getState key => .state (s.alg.getState key)
  | .getByName name => .key (s.alg.getByName name)
  | .registeredCount => .count s.alg.registeredCount
  | .wake _ => .done

/-- The cancelled task that the sweep comes to. -/
def condemned (s : Wheel) (key : TaskKey) : Option TaskRef :=
  match s.get key with
  | some task => if task.stopReason = .cancelled then some ⟨key, task.tid⟩ else none
  | none => none

/-- What a step shows to the outside. -/
def shows (s : Wheel) : Event → List Act
  | .call (.wake target) => [.wake target]
  | .call c => [.call c (s.answer c)]
  | .wakeStep i =>
    match s.wakes[i]? with
    | some ⟨target, .store⟩ => [.wake target]
    | _ => []
  | .run =>
    match s.pc with
    | .sweep b key => if key < b.cap then ((s.condemned key).map Act.condemn).toList else []
    | .chosen _ key tid => [.pick ⟨key, tid⟩]
    | .removing _ key tid => [.retire ⟨key, tid⟩]
    | _ => []
  | .done isReady =>
    match s.pc with
    | .polling _ key tid => [if isReady then .finish ⟨key, tid⟩ else .pause ⟨key, tid⟩]
    | _ => []
  | .panic =>
    match s.pc with
    | .polling _ key tid => [.pause ⟨key, tid⟩]
    | _ => []
  | _ => []

def roster (s : Wheel) : Roster := ⟨members s.slab, s.pc.polled, s.pc.leaving, s.nextTid⟩

section Calls
variable {s : Wheel}

theorem request_settled {c : Call} {k : TaskKey} {f : StopReason → Option StopReason}
    (request : c.request = some (k, f)) :
    (s.answer c, (s.perform c).slab, (s.perform c).nextTid) = settled s.slab s.nextTid k f := by
  have bound : s.alg.registry.get k = s.slab.get k := rfl
  unfold settled
  cases found : s.slab.get k with
  | none =>
    rw [found] at bound
    cases c <;> cases request <;>
      simp [answer, perform, UnorderedAlgorithm.suspend, UnorderedAlgorithm.resume,
        UnorderedAlgorithm.cancel, bound, slab]
  | some task =>
    rw [found] at bound
    cases c <;> cases request <;> cases reason : task.stopReason <;>
      simp [answer, perform, UnorderedAlgorithm.suspend, UnorderedAlgorithm.resume,
        UnorderedAlgorithm.cancel, bound, slab, reason, UnorderedAlgorithm.setStopReason,
        UnorderedAlgorithm.incSuspended, UnorderedAlgorithm.decSuspended, Registry.update,
        StopReason.suspend, StopReason.resume, StopReason.cancel]

theorem getByName_served (name : String) :
    Booked s.slab s.nextTid (.getByName name) (s.answer (.getByName name)) s.slab s.nextTid := by
  have told : s.answer (.getByName name) = .key ((List.range s.slab.capacity).find?
    fun k => (s.slab.get k).any (called name)) := congrArg Answer.key (s.alg.getByName_eq name)
  rw [told]
  cases scan : (List.range s.slab.capacity).find? fun k => (s.slab.get k).any (called name) with
  | some k =>
    obtain ⟨holds, _, first⟩ := List.find?_range_eq_some.mp scan
    obtain ⟨task, found, here⟩ := (Option.any_eq_true _ _).mp holds
    refine .named name k task found here fun j task' found' here' => ?_
    by_contra above
    have no := first j (Nat.lt_of_not_le above)
    rw [(Option.any_eq_true _ _).mpr ⟨task', found', here'⟩] at no
    cases no
  | none =>
    refine .unnamed name fun j task found => ?_
    have no := List.find?_eq_none.mp scan j (List.mem_range.mpr (ChunkSlab.get_lt_capacity found))
    by_contra here
    exact no ((Option.any_eq_true _ _).mpr ⟨task, found, eq_true_of_ne_false here⟩)

theorem serves (wf : s.slab.WellFormed) : Serves s.slab s.nextTid fun c =>
    (s.answer c, (s.perform c).slab, (s.perform c).nextTid) where
  register params := by
    obtain ⟨key, told, inserted, _⟩ := register_change wf params
    exact ⟨key, _, inserted, by rw [answer, told]; rfl⟩
  request c k f request := request_settled request
  state k := congrArg (fun state => (Answer.state state, s.slab, s.nextTid)) (state_told (s.slab.get k))
  byName name := ⟨_, getByName_served name, rfl⟩
  count := rfl

theorem storeRunnable_woken (s : Wheel) (target : TaskRef) :
    Woken s.slab target (s.storeRunnable target).slab := by
  refine .store ?_
  have bound : s.get target.key = s.slab.get target.key := rfl
  cases found : s.slab.get target.key <;> simp only [storeRunnable, bound, found]
  split <;> rfl

end Calls

theorem roster_same {s t : Wheel} (slab : t.slab = s.slab) (tids : t.nextTid = s.nextTid)
    (polled : t.pc.polled = s.pc.polled) (leaving : t.pc.leaving = s.pc.leaving) :
    t.roster = s.roster :=
  Roster.ext (congrArg members slab) polled leaving tids

/-- A step that shows nothing. -/
theorem silent {s t : Wheel} (same : t.roster = s.roster) :
    Path (Roster.Next True) s.roster [] t.roster := by
  rw [same]
  exact .nil s.roster

@[simp] theorem storeRunnable_nextTid (s : Wheel) (target : TaskRef) :
    (s.storeRunnable target).nextTid = s.nextTid := by
  rcases storeRunnable_cases s target with no | ⟨task, _, _, yes⟩
  · rw [no]
  · rw [yes]
    rfl

theorem call_simulates {s t : Wheel} {c : Call} (con : Consistent s) (h : s.call c = some t) :
    Path (Roster.Next True) s.roster (s.shows (.call c)) t.roster := by
  have parts : t.slab = (s.perform c).slab ∧ t.nextTid = (s.perform c).nextTid ∧
      t.pc.polled = s.pc.polled ∧ t.pc.leaving = s.pc.leaving := by
    unfold call at h
    split at h
    · cases h
      exact ⟨rfl, rfl, by rw [perform_pc], by rw [perform_pc]⟩
    · rename_i pc
      cases h
      exact ⟨rfl, rfl, by rw [pc]; rfl, by rw [pc]; rfl⟩
    · cases h
      exact ⟨rfl, rfl, by rw [perform_pc], by rw [perform_pc]⟩
    · rename_i pc
      cases h
      exact ⟨rfl, rfl, by rw [pc]; rfl, by rw [pc]; rfl⟩
    · cases h
  obtain ⟨slab, tids, polled, leaving⟩ := parts
  by_cases woken : ∃ target, c = .wake target
  · obtain ⟨target, rfl⟩ := woken
    have before : s.notifyWake.slab = s.slab := by simp [Wheel.slab]
    have woken := storeRunnable_woken s.notifyWake target
    rw [before] at woken
    have after := woken.wake (m := s.roster) (n := t.roster) rfl (congrArg members slab)
      (tids.trans (by simp [perform, wake, roster])) polled leaving
    exact after ▸ Path.one (.wake target)
  · have plain : ∀ target, c ≠ .wake target := fun target same => woken ⟨target, same⟩
    have shown : s.shows (.call c) = [.call c (s.answer c)] := by
      cases c with
      | wake target => exact absurd rfl (plain target)
      | _ => rfl
    rw [shown]
    exact Path.one (.call (((serves con.wf).booked plain).answers con.wf rfl rfl
      (congrArg members slab) tids polled leaving))

theorem wakeStep_simulates {s t : Wheel} {i : Nat} (h : s.wakeStep i = some t) :
    Path (Roster.Next True) s.roster (s.shows (.wakeStep i)) t.roster := by
  unfold wakeStep at h
  split at h
  · cases h
  · rename_i here
    cases h
    simp only [shows, here]
    exact silent (roster_same rfl rfl rfl rfl)
  · rename_i here
    cases h
    simp only [shows, here]
    exact silent (roster_same rfl rfl rfl rfl)
  · rename_i target here
    cases h
    simp only [shows, here]
    have after := (storeRunnable_woken s target).wake (m := s.roster)
      (n := Wheel.roster { s.storeRunnable target with wakes := s.wakes.eraseIdx i }) rfl rfl
      (storeRunnable_nextTid s target) (by simp [roster]) (by simp [roster])
    exact after ▸ Path.one (.wake target)

theorem visit_simulates {s : Wheel} {b : Beat} {key : TaskKey} (pc : s.pc = .sweep b key) :
    Path (Roster.Next True) s.roster ((s.condemned key).map Act.condemn).toList
      (s.visit b key).roster := by
  have still : ∀ t : Wheel, t.slab = s.slab → t.nextTid = s.nextTid → t.pc.polled = none →
      t.pc.leaving = none → t.roster = s.roster := fun t slab tids polled leaving =>
    roster_same slab tids (polled.trans (by rw [pc]; rfl)) (leaving.trans (by rw [pc]; rfl))
  unfold condemned visit
  cases found : s.get key with
  | none => exact silent (still _ rfl rfl rfl rfl)
  | some task =>
    cases reason : task.stopReason with
    | cancelled =>
      simp only [reason, StopReason.isPollAllowed, reduceCtorEq, decide_false, if_true,
        Bool.false_eq_true, not_false_eq_true]
      have taken : Roster.Next True s.roster (.condemn ⟨key, task.tid⟩)
          { s.roster with leaving := some ⟨key, task.tid⟩ } :=
        .condemn _ (Member.of task) (by simp [roster, pc, Pc.polled]) (by simp [roster, pc, Pc.leaving])
          ⟨members_some found, rfl⟩ reason
      have after : (s.goto (.removing b key task.tid)).roster =
          { s.roster with leaving := some ⟨key, task.tid⟩ } :=
        Roster.ext rfl (by simp [roster, pc, goto, Pc.polled]) rfl rfl
      exact after ▸ Path.one taken
    | suspended =>
      simp only [reason, StopReason.isPollAllowed, reduceCtorEq, decide_false, if_false, if_true,
        Bool.false_eq_true, not_false_eq_true]
      exact silent (still (s.goto (.sweep b (key + 1))) rfl rfl rfl rfl)
    | none =>
      simp only [reason, StopReason.isPollAllowed, reduceCtorEq, decide_true, if_false,
        not_true_eq_false]
      split
      · exact silent (still (s.goto (.sweep b (key + 1))) rfl rfl rfl rfl)
      · exact silent (still ((s.withRegistry fun r => r.borrow task.tid).goto
          (.chosen b key task.tid)) rfl rfl rfl rfl)

theorem pollLocal_simulates {s t : Wheel} {b : Beat} {key : TaskKey} {tid : Tid}
    (con : Consistent s) (pc : s.pc = .chosen b key tid) (h : s.pollLocal b key tid = t) :
    Path (Roster.Next True) s.roster [.pick ⟨key, tid⟩] t.roster := by
  obtain ⟨task, found, identity⟩ := con.subject key tid (by rw [pc]; rfl)
  obtain ⟨task', found', reason, runnable⟩ := con.chosen b key tid pc
  cases found.symm.trans found'
  have lowered : task.polling = false := by
    by_contra raised
    have at_pc := (con.polling key task found).mp (by simpa using raised)
    rw [pc] at at_pc
    cases at_pc
  have taken : Roster.Next True s.roster (.pick ⟨key, tid⟩)
      { s.roster.set key (some { Member.of task with runnable := false }) with
        polled := some ⟨key, tid⟩ } :=
    .pick ⟨key, tid⟩ (Member.of task) (by simp [roster, pc, Pc.polled])
      (by simp [roster, pc, Pc.leaving]) ⟨members_some found, identity⟩ reason (fun _ => runnable)
  have after : t.roster = { s.roster.set key (some { Member.of task with runnable := false }) with
      polled := some ⟨key, tid⟩ } := by
    simp only [pollLocal, found, lowered, Bool.false_eq_true, if_false] at h
    subst h
    have hold : s.slab.get key = some task := found
    refine Roster.ext ?_ rfl (by simp [roster, pc, goto, Pc.leaving, Roster.set]) rfl
    exact members_update (fun t => (t.setPolling true).setRunnable false) hold
  exact after ▸ Path.one taken

theorem remove_simulates {s t : Wheel} {b : Beat} {key : TaskKey} {tid : Tid}
    (con : Consistent s) (pc : s.pc = .removing b key tid) (h : s.step .run = some t) :
    Path (Roster.Next True) s.roster [.retire ⟨key, tid⟩] t.roster := by
  obtain ⟨task, found, identity, removed, _⟩ := remove_found con pc h
  have taken : Roster.Next True s.roster (.retire ⟨key, tid⟩)
      { s.roster.set key none with leaving := none } :=
    .retire ⟨key, tid⟩ (Member.of task) (by simp [roster, pc, Pc.polled])
      (by simp [roster, pc, Pc.leaving]) ⟨members_some found, identity⟩
  obtain ⟨after, eq, _⟩ := ChunkSlab.remove_some con.wf found
  have eq' : s.alg.registry.slab.remove key = (some task, after) := eq
  have after' : t.roster = { s.roster.set key none with leaving := none } := by
    refine Roster.ext (members_removed removed) ?_ ?_ ?_ <;>
      simp only [step, run, pc, remove, Registry.remove, eq'] at h <;> cases h <;>
      simp [roster, pc, Roster.set, goto, Pc.polled, Pc.leaving, withRegistry]
  exact after' ▸ Path.one taken

theorem run_simulates {s t : Wheel} (con : Consistent s) (h : s.step .run = some t) :
    Path (Roster.Next True) s.roster (s.shows .run) t.roster := by
  have still : ∀ t : Wheel, s.pc.polled = none → s.pc.leaving = none → t.slab = s.slab →
      t.nextTid = s.nextTid → t.pc.polled = none → t.pc.leaving = none →
      Path (Roster.Next True) s.roster [] t.roster :=
    fun t idle calm slab tids polled leaving =>
      silent (roster_same slab tids (polled.trans idle.symm) (leaving.trans calm.symm))
  have h' := h
  simp only [step, run] at h'
  cases pc : s.pc with
  | clear =>
    simp only [pc] at h'
    cases h'
    simp only [shows, pc]
    exact still _ (by rw [pc]; rfl) (by rw [pc]; rfl) rfl rfl rfl rfl
  | sweep b key =>
    simp only [pc] at h'
    cases h'
    simp only [shows, pc]
    split
    · exact visit_simulates pc
    · obtain ⟨slab, _, tids, _⟩ := endBeat_same s b
      refine still _ (by rw [pc]; rfl) (by rw [pc]; rfl) slab tids ?_ ?_ <;>
        (unfold endBeat; split <;> first | rfl | (dsimp only; split <;> rfl))
  | chosen b key tid =>
    simp only [pc] at h'
    simp only [shows, pc]
    exact pollLocal_simulates con pc (Option.some.inj h')
  | removing b key tid =>
    simp only [shows, pc]
    exact remove_simulates con pc h
  | register =>
    simp only [pc] at h'
    cases h'
    simp only [shows, pc]
    exact still _ (by rw [pc]; rfl) (by rw [pc]; rfl) rfl rfl rfl rfl
  | finish finished =>
    simp only [pc] at h'
    cases h'
    simp only [shows, pc]
    exact still _ (by rw [pc]; rfl) (by rw [pc]; rfl) rfl rfl rfl rfl
  | _ => simp [pc] at h'

section PollEnd
variable {s t : Wheel} {b : Beat} {key : TaskKey} {tid : Tid}

theorem pause_simulates (pc : s.pc = .polling b key tid) (kept : members t.slab = members s.slab)
    (tids : t.nextTid = s.nextTid) (polled : t.pc.polled = none) (leaving : t.pc.leaving = none) :
    Path (Roster.Next True) s.roster [.pause ⟨key, tid⟩] t.roster := by
  have busy : s.roster.polled = some ⟨key, tid⟩ := by simp [roster, pc, Pc.polled]
  have after : t.roster = { s.roster with polled := none } :=
    Roster.ext kept polled (leaving.trans (by simp [roster, pc, Pc.leaving])) tids
  exact after ▸ Path.one (.pause ⟨key, tid⟩ busy)

theorem finish_simulates (pc : s.pc = .polling b key tid) (kept : members t.slab = members s.slab)
    (tids : t.nextTid = s.nextTid) (polled : t.pc.polled = none)
    (leaving : t.pc.leaving = some ⟨key, tid⟩) :
    Path (Roster.Next True) s.roster [.finish ⟨key, tid⟩] t.roster := by
  have busy : s.roster.polled = some ⟨key, tid⟩ := by simp [roster, pc, Pc.polled]
  have calm : s.roster.leaving = none := by simp [roster, pc, Pc.leaving]
  have after : t.roster = { s.roster with polled := none, leaving := some ⟨key, tid⟩ } :=
    Roster.ext kept polled leaving tids
  exact after ▸ Path.one (.finish ⟨key, tid⟩ busy calm)

end PollEnd

theorem done_simulates {s t : Wheel} {isReady : Bool} (h : s.done isReady = some t) :
    Path (Roster.Next True) s.roster (s.shows (.done isReady)) t.roster := by
  unfold done at h
  split at h
  · rename_i b key tid pc inner
    have kept := members_lowered s.slab key
    simp only [shows, pc]
    cases h
    cases isReady with
    | true => exact finish_simulates pc kept rfl rfl rfl
    | false => exact pause_simulates pc kept rfl rfl rfl
  · cases h

theorem panic_simulates {s t : Wheel} (h : s.panic = some t) :
    Path (Roster.Next True) s.roster (s.shows .panic) t.roster := by
  unfold panic at h
  split at h
  · rename_i b key tid pc
    have kept : members (s.closeInner.slab.update key (DynamicFuture.setPolling false)) =
        members s.slab := by rw [members_lowered, closeInner_slab]
    simp only [shows, pc]
    cases h
    exact pause_simulates pc kept (closeInner_nextTid s) rfl rfl
  · rename_i pc
    simp only [shows, pc]
    cases h
    exact silent (roster_same (closeInner_slab s) (closeInner_nextTid s) (by rw [pc]; rfl)
      (by rw [pc]; rfl))
  · cases h

theorem withName_roster {s t : Wheel} {key : TaskKey} (h : s.withName key = some t) :
    t.roster = s.roster := by
  have same := withName_same h
  unfold withName at h
  split at h
  all_goals cases h
  · exact roster_same same.1 same.2.2.1 (by simp) (by simp)
  · rename_i pc
    exact roster_same same.1 same.2.2.1 (by simp [pc, Pc.polled]) (by simp [pc, Pc.leaving])
  · exact roster_same same.1 same.2.2.1 (by simp) (by simp)
  · exact roster_same same.1 same.2.2.1 (by simp) (by simp)

theorem withNameEnd_roster {s t : Wheel} (h : s.withNameEnd = some t) : t.roster = s.roster := by
  have same := withNameEnd_same h
  unfold withNameEnd at h
  split at h
  all_goals cases h
  · exact roster_same same.1 same.2.2.1 (by simp) (by simp)
  · rename_i pc _
    exact roster_same same.1 same.2.2.1 (by simp [pc, Pc.polled]) (by simp [pc, Pc.leaving])
  · exact roster_same same.1 same.2.2.1 (by simp) (by simp)
  · exact roster_same same.1 same.2.2.1 (by simp) (by simp)

/-- Every step of the wheel is a path of the roster, with the labels that it shows. -/
theorem step_simulates {s t : Wheel} {e : Event} (con : Consistent s) (h : s.step e = some t) :
    Path (Roster.Next True) s.roster (s.shows e) t.roster := by
  cases e with
  | call c => exact call_simulates con h
  | withName key => exact silent (withName_roster h)
  | withNameEnd => exact silent (withNameEnd_roster h)
  | wakeBegin target =>
    cases h
    exact silent rfl
  | wakeStep i => exact wakeStep_simulates h
  | poll w =>
    simp only [step, poll] at h
    split at h
    · rename_i pc
      cases h
      exact silent (roster_same rfl rfl (by rw [pc]; rfl) (by rw [pc]; rfl))
    · rename_i pc
      cases h
      exact silent (roster_same rfl rfl (by rw [pc]; rfl) (by rw [pc]; rfl))
    · cases h
  | run => exact run_simulates con h
  | done isReady => exact done_simulates h
  | dropped =>
    simp only [step, dropped] at h
    split at h
    · rename_i pc _
      cases h
      exact silent (roster_same rfl rfl (by rw [pc]; rfl) (by rw [pc]; rfl))
    · cases h
  | panic => exact panic_simulates h

/-- What the wheel shows to the outside in a run from its creation. -/
def history (es : List Event) : List Act := shown step shows new es

theorem history_path {es : List Event} {t : Wheel} (run : exec step new es = some t) :
    Path (Roster.Next True) .empty (history es) t.roster := by
  obtain ⟨m, path, _, rfl⟩ : ∃ m, Path (Roster.Next True) .empty (history es) m ∧
      Consistent t ∧ m = t.roster :=
    simulation (R := fun s m => Consistent s ∧ m = s.roster)
      (fun s m e t ⟨con, eq⟩ taken =>
        ⟨t.roster, eq ▸ step_simulates con taken, step_consistent con taken, rfl⟩)
      ⟨new_consistent, rfl⟩ run
  exact path

end Wheel
end Juggle.Dy
