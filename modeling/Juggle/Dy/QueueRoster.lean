import Juggle.Dy.Placement
import Juggle.Dy.Refinement

/-! The scheduler with queues is a roster too. It keeps to it in every run, also after it
has lost a key or doubled one; only that it polls no sleeping task takes a harmless run. -/
namespace Juggle.Dy
open Juggle.Utils Juggle.Traces Juggle.Runs

/-- A handle call leaves a task at its key. -/
theorem Booked.stays {slab after : ChunkSlab TaskKey DynamicFuture} {tid tid' : Tid} {c : Call}
    {a : Answer} (served : Booked slab tid c a after tid') {k : TaskKey} {task : DynamicFuture}
    (found : slab.get k = some task) : ∃ task', after.get k = some task' ∧ task'.tid = task.tid := by
  cases served with
  | register params j _ inserted =>
    have other : k ≠ j := by
      rintro rfl
      cases found.symm.trans inserted.fresh
    exact ⟨task, (inserted.others k other).trans found, rfl⟩
  | granted _ j f old r request hold allowed =>
    by_cases here : k = j
    · subst here
      exact ⟨task.setStopReason r, by simp [ChunkSlab.get_update_self, found], rfl⟩
    · exact ⟨task, (ChunkSlab.get_update_other slab _ here).trans found, rfl⟩
  | _ => exact ⟨task, found, rfl⟩

/-- So does a wake. -/
theorem Woken.stays {slab after : ChunkSlab TaskKey DynamicFuture} {target : TaskRef}
    (woken : Woken slab target after) {k : TaskKey} {task : DynamicFuture}
    (found : slab.get k = some task) : ∃ task', after.get k = some task' ∧ task'.tid = task.tid := by
  cases woken with
  | reached old hold identity =>
    by_cases here : k = target.key
    · subst here
      exact ⟨task.setRunnable true, by simp [ChunkSlab.get_update_self, found], rfl⟩
    · exact ⟨task, (ChunkSlab.get_update_other slab _ here).trans found, rfl⟩
  | stale gone => exact ⟨task, found, rfl⟩

namespace Scheduler

def slab (s : Scheduler) : ChunkSlab TaskKey DynamicFuture := s.alg.registry.slab

def answer (s : Scheduler) : Call → Answer
  | .register params => .key (s.alg.register (DynamicFuture.new s.nextTid params)).1
  | .suspend key => .flag (s.alg.suspend key).1
  | .resume key => .flag (s.alg.resume key).1
  | .cancel key => .flag (s.alg.cancel key).1
  | .getState key => .state (s.alg.getState key)
  | .getByName name => .key (s.alg.getByName name)
  | .registeredCount => .count s.alg.registeredCount
  | .wake _ => .done

def removal (key : TaskKey) (task : DynamicFuture) : List Act :=
  if task.stopReason = .cancelled then [.condemn ⟨key, task.tid⟩, .retire ⟨key, task.tid⟩] else []

/-- The task at the front of `from`. -/
def visited (key : TaskKey) (task : DynamicFuture) : List Act :=
  if task.stopReason = .none then [.pick ⟨key, task.tid⟩] else removal key task

/-- The end of a poll. A task that is not ready is removed at once when it is cancelled. -/
def ended (isReady : Bool) (key : TaskKey) (task : DynamicFuture) : List Act :=
  if isReady then [.finish ⟨key, task.tid⟩, .retire ⟨key, task.tid⟩]
  else .pause ⟨key, task.tid⟩ :: removal key task

/-- The acts of a step at one key, if there is a task. -/
def at_ (s : Scheduler) (acts : TaskKey → DynamicFuture → List Act) (key : Option TaskKey) :
    List Act :=
  (key.bind fun k => (s.slab.get k).map (acts k)).getD []

/-- What a step shows to the outside. -/
def shows (s : Scheduler) : Event → List Act
  | .call (.wake target) => [.wake target]
  | .call c => [.call c (s.answer c)]
  | .store target => [.wake target]
  | .run =>
    match s.pc with
    | .drain _ _ index => s.at_ removal s.alg.deferred[index]?
    | .rotate => s.at_ visited s.alg.fromQueue.head?
    | .scan =>
      if s.alg.scanRegistry && s.alg.scan.isSome then
        s.slab.iter.flatMap fun e => removal e.1 e.2
      else []
    | _ => []
  | .done isReady => s.at_ (ended isReady) s.pc.pollingAt
  | .panic => s.at_ (fun key task => [.pause ⟨key, task.tid⟩]) s.pc.pollingAt
  | _ => []

/-- The task being polled, by its key and identity. -/
def polled (s : Scheduler) : Option TaskRef :=
  s.pc.pollingAt.bind fun k => (s.slab.get k).map fun task => ⟨k, task.tid⟩

def roster (s : Scheduler) : Roster := ⟨members s.slab, s.polled, none, s.nextTid⟩

section Calls
variable {s : Scheduler}

theorem registry_enqueue (alg : SchedulerAlgorithm) (key : TaskKey) (checkAbsent : Bool) :
    (alg.enqueueRunnable key checkAbsent).registry = alg.registry := by
  unfold SchedulerAlgorithm.enqueueRunnable
  split <;> split <;> rfl

theorem request_settled {c : Call} {k : TaskKey} {f : StopReason → Option StopReason}
    (request : c.request = some (k, f)) :
    (s.answer c, (s.perform c).slab, (s.perform c).nextTid) = settled s.slab s.nextTid k f := by
  have bound : s.alg.get k = s.slab.get k := rfl
  unfold settled
  cases found : s.slab.get k with
  | none =>
    rw [found] at bound
    cases c <;> cases request <;>
      simp [answer, perform, SchedulerAlgorithm.suspend, SchedulerAlgorithm.resume,
        SchedulerAlgorithm.cancel, bound, slab]
  | some task =>
    rw [found] at bound
    cases c <;> cases request <;> cases reason : task.stopReason <;>
      simp only [answer, perform, SchedulerAlgorithm.suspend, SchedulerAlgorithm.resume,
        SchedulerAlgorithm.cancel, bound, slab, reason, if_true, if_false, ne_eq, reduceCtorEq,
        not_false_eq_true, not_true_eq_false, StopReason.suspend, StopReason.resume,
        StopReason.cancel, Option.bind_some]
    case suspend.refl.none => split <;> rfl
    case resume.refl.suspended =>
      split
      · rw [registry_enqueue]
        rfl
      · split <;> rfl
    all_goals rfl

theorem getByName_served (wf : s.slab.WellFormed) (name : String) :
    Booked s.slab s.nextTid (.getByName name) (s.answer (.getByName name)) s.slab s.nextTid := by
  have told : s.answer (.getByName name) =
    .key ((s.slab.iter.find? fun e => called name e.2).map Prod.fst) := rfl
  rw [told]
  cases scan : s.slab.iter.find? fun e => called name e.2 with
  | some e =>
    obtain ⟨here, before, behind, split, missed⟩ := List.find?_eq_some_iff_append.mp scan
    have ascending := ChunkSlab.iter_ascending wf
    rw [split] at ascending
    have listed : e ∈ s.slab.iter := split ▸ List.mem_append_right before List.mem_cons_self
    refine .named name e.1 e.2 ((ChunkSlab.mem_iter wf e.1 e.2).mp listed) here ?_
    intro j task found here'
    have listed' := (ChunkSlab.mem_iter wf j task).mpr found
    rw [split] at listed'
    rcases List.mem_append.mp listed' with early | late
    · have no := missed (j, task) early
      simp [here'] at no
    · rcases List.mem_cons.mp late with same | late
      · exact Nat.le_of_eq (congrArg Prod.fst same).symm
      · have above := (List.pairwise_cons.mp (List.pairwise_append.mp ascending).2.1).1 _ late
        exact Nat.le_of_lt above
  | none =>
    refine .unnamed name fun j task found => ?_
    have no := List.find?_eq_none.mp scan (j, task) ((ChunkSlab.mem_iter wf j task).mpr found)
    exact eq_false_of_ne_true no

theorem serves (wf : s.slab.WellFormed) : Serves s.slab s.nextTid fun c =>
    (s.answer c, (s.perform c).slab, (s.perform c).nextTid) where
  register params := by
    obtain ⟨key, after, eq, inserted⟩ :=
      ChunkSlab.insert_spec wf (DynamicFuture.new s.nextTid params) rfl
    have eq' : s.alg.registry.slab.insert (DynamicFuture.new s.nextTid params) = (.ok key, after) := eq
    have told : s.answer (.register params) = .key (some key) := by
      simp only [answer, SchedulerAlgorithm.register, Registry.insert, eq']
    have grown : (s.perform (.register params)).slab = after := by
      simp only [perform, slab, SchedulerAlgorithm.register, Registry.insert, eq']
      split
      · rfl
      · rw [registry_enqueue]
    exact ⟨key, after, inserted, by rw [told, grown]; rfl⟩
  request c k f request := request_settled request
  state k := congrArg (fun state => (Answer.state state, s.slab, s.nextTid)) (state_told (s.slab.get k))
  byName name := ⟨_, getByName_served wf name, rfl⟩
  count := rfl

theorem storeRunnable_woken (s : Scheduler) (target : TaskRef) :
    Woken s.slab target (s.storeRunnable target).slab := by
  refine .store ?_
  have bound : s.alg.get target.key = s.slab.get target.key := rfl
  cases found : s.slab.get target.key <;> simp only [storeRunnable, bound, found]
  split <;> rfl

end Calls

/-! The simulation. -/

section Steps
variable {strict : Prop} {s t : Scheduler}

theorem roster_same (slab : t.slab = s.slab) (tids : t.nextTid = s.nextTid)
    (pc : t.pc.pollingAt = s.pc.pollingAt) : t.roster = s.roster :=
  Roster.ext (congrArg members slab) (by simp only [roster, polled, slab, pc]) rfl tids

theorem silent (same : t.roster = s.roster) : Path (Roster.Next strict) s.roster [] t.roster := by
  rw [same]
  exact .nil s.roster

/-- The task being polled is still there. -/
theorem polled_same (sound : Sound s) (pc : t.pc.pollingAt = s.pc.pollingAt)
    (stays : ∀ k task, s.slab.get k = some task →
      ∃ task', t.slab.get k = some task' ∧ task'.tid = task.tid) : t.polled = s.polled := by
  unfold polled
  rw [pc]
  cases at_ : s.pc.pollingAt with
  | none => rfl
  | some k =>
    obtain ⟨task, found⟩ := Option.isSome_iff_exists.mp (sound.known k at_)
    have found' : s.slab.get k = some task := found
    obtain ⟨task', after, identity⟩ := stays k task found'
    simp [found', after, identity]

theorem call_simulates {c : Call} (sound : Sound s) (h : s.call c = some t) :
    Path (Roster.Next strict) s.roster (s.shows (.call c)) t.roster := by
  have parts : t.slab = (s.perform c).slab ∧ t.nextTid = (s.perform c).nextTid ∧
      t.pc.pollingAt = s.pc.pollingAt := by
    unfold call at h
    split at h
    · cases h
      exact ⟨rfl, rfl, by rw [perform_pc]⟩
    · rename_i pc
      cases h
      exact ⟨rfl, rfl, by rw [pc]; rfl⟩
    · cases h
      exact ⟨rfl, rfl, by rw [perform_pc]⟩
    · cases h
  obtain ⟨slab, tids, pc⟩ := parts
  by_cases woken : ∃ target, c = .wake target
  · obtain ⟨target, rfl⟩ := woken
    have woken : Woken s.slab target t.slab :=
      slab ▸ storeRunnable_woken (s.setLastWaker none) target
    have kept : t.nextTid = s.nextTid := by
      rw [tids]
      simp only [perform, storeRunnable]
      split
      · split <;> rfl
      · rfl
    have after := woken.wake (m := s.roster) (n := t.roster) rfl rfl kept
      (polled_same sound pc fun _ _ => woken.stays) rfl
    exact after ▸ Path.one (.wake target)
  · have plain : ∀ target, c ≠ .wake target := fun target same => woken ⟨target, same⟩
    have shown : s.shows (.call c) = [.call c (s.answer c)] := by
      cases c with
      | wake target => exact absurd rfl (plain target)
      | _ => rfl
    have served := (serves sound.wf).booked plain
    rw [shown]
    exact Path.one (.call (served.answers sound.wf rfl rfl (congrArg members slab) tids
      (polled_same sound pc fun _ _ found => slab ▸ served.stays found) rfl))

theorem store_simulates (sound : Sound s) (target : TaskRef) :
    Path (Roster.Next strict) s.roster [.wake target] (s.storeRunnable target).roster := by
  have woken := storeRunnable_woken s target
  have kept : (s.storeRunnable target).nextTid = s.nextTid := by
    unfold storeRunnable
    split
    · split <;> rfl
    · rfl
  have after := woken.wake (m := s.roster) (n := (s.storeRunnable target).roster) rfl rfl kept
    (polled_same sound (by simp) fun _ _ => woken.stays) rfl
  exact after ▸ Path.one (.wake target)

theorem polled_none (idle : s.pc.pollingAt = none) : s.polled = none := by
  simp [polled, idle]

theorem removal_simulates {key : TaskKey} {task : DynamicFuture} (idle : s.pc.pollingAt = none)
    (found : s.slab.get key = some task) (cancelled : task.stopReason = .cancelled)
    (removed : ChunkSlab.Removed s.slab key task t.slab) (tids : t.nextTid = s.nextTid)
    (idle' : t.pc.pollingAt = none) :
    Path (Roster.Next strict) s.roster (removal key task) t.roster := by
  have after : t.roster = { s.roster.set key none with leaving := none } :=
    Roster.ext (members_removed removed)
      ((polled_none idle').trans (polled_none idle).symm) rfl tids
  have held : s.roster.Holds ⟨key, task.tid⟩ (Member.of task) := ⟨members_some found, rfl⟩
  rw [removal, if_pos cancelled, after]
  exact .cons (.condemn ⟨key, task.tid⟩ (Member.of task) (polled_none idle) rfl held cancelled)
    (.cons (.retire ⟨key, task.tid⟩ (Member.of task) (polled_none idle) rfl held) (.nil _))

theorem removeTask_removed {alg : SchedulerAlgorithm} {key : TaskKey} {task : DynamicFuture}
    (wf : alg.registry.slab.WellFormed) (found : alg.registry.slab.get key = some task) :
    ∃ after, alg.removeTask key = some after ∧
      ChunkSlab.Removed alg.registry.slab key task after.registry.slab := by
  obtain ⟨slab, eq, removed⟩ := ChunkSlab.remove_some wf found
  refine ⟨{ alg with registry := { alg.registry with slab := slab } }, ?_, removed⟩
  simp only [SchedulerAlgorithm.removeTask, Registry.remove, eq]

@[simp] theorem at_none (acts : TaskKey → DynamicFuture → List Act) : s.at_ acts none = [] := rfl

theorem at_absent {acts : TaskKey → DynamicFuture → List Act} {key : TaskKey}
    (gone : s.slab.get key = none) : s.at_ acts (some key) = [] := by
  simp [at_, gone]

theorem at_present {acts : TaskKey → DynamicFuture → List Act} {key : TaskKey}
    {task : DynamicFuture} (found : s.slab.get key = some task) :
    s.at_ acts (some key) = acts key task := by
  simp [at_, found]

theorem removal_live {key : TaskKey} {task : DynamicFuture} (live : task.stopReason ≠ .cancelled) :
    removal key task = [] := if_neg live

theorem drain_simulates {second : Bool} {prev index : Nat} (sound : Sound s)
    (pc : s.pc = .drain second prev index) :
    Path (Roster.Next strict) s.roster (s.at_ removal s.alg.deferred[index]?)
      (s.drain second prev index).roster := by
  have idle : s.pc.pollingAt = none := congrArg Pc.pollingAt pc
  have still : ∀ t : Scheduler, t.slab = s.slab → t.nextTid = s.nextTid → t.pc.pollingAt = none →
      Path (Roster.Next strict) s.roster [] t.roster :=
    fun t slab tids pc' => silent (roster_same slab tids (pc'.trans idle.symm))
  unfold drain
  cases here : s.alg.deferred[index]? with
  | none =>
    unfold endDrain
    dsimp only
    split
    · split <;> exact still (s.goto _) rfl rfl rfl
    · split <;> exact still (s.goto _) rfl rfl rfl
  | some elem =>
    have bound : s.alg.get elem = s.slab.get elem := rfl
    cases found : s.slab.get elem with
    | none =>
      rw [found] at bound
      simp only [SchedulerAlgorithm.drainElem, bound, at_absent found]
      exact still _ rfl rfl rfl
    | some task =>
      rw [found] at bound
      simp only [SchedulerAlgorithm.drainElem, bound, at_present found]
      by_cases held : task.stopReason = .suspended
      · rw [if_pos held, removal_live (by simp [held])]
        exact still _ rfl rfl rfl
      · rw [if_neg held]
        by_cases cancelled : task.stopReason = .cancelled
        · obtain ⟨after, eq, removed⟩ := removeTask_removed sound.wf found
          rw [if_pos cancelled, eq]
          exact removal_simulates idle found cancelled removed rfl rfl
        · rw [if_neg cancelled, removal_live cancelled]
          by_cases runnable : task.runnable = true
          · rw [if_pos runnable]
            exact still _ rfl rfl rfl
          · rw [if_neg runnable]
            exact still _ rfl rfl rfl

/-- Where the roster asks for it, the task at the front is runnable. -/
def Ready (strict : Prop) (s : Scheduler) : Prop :=
  strict → s.pc = .rotate → ∀ key ∈ s.alg.fromQueue.head?, ∀ task ∈ s.slab.get key,
    task.stopReason = .none → task.runnable = true

theorem visit_simulates {key : TaskKey} (sound : Sound s) (ready : Ready strict s)
    (pc : s.pc = .rotate) (front : s.alg.fromQueue.head? = some key) :
    Path (Roster.Next strict) s.roster (s.at_ visited (some key)) (s.visit key).roster := by
  have idle : s.pc.pollingAt = none := congrArg Pc.pollingAt pc
  have bound : s.alg.get key = s.slab.get key := rfl
  unfold visit
  cases found : s.slab.get key with
  | none =>
    rw [found] at bound
    simp only [bound, at_absent found]
    exact silent (roster_same rfl rfl idle.symm)
  | some task =>
    rw [found] at bound
    simp only [bound, at_present found, visited, ne_eq]
    by_cases free : task.stopReason = .none
    · rw [if_neg (not_not_intro free), if_pos free, pollLocal_eq sound pc bound]
      have held : s.roster.Holds ⟨key, task.tid⟩ (Member.of task) := ⟨members_some found, rfl⟩
      have taken := Roster.Next.pick (m := s.roster) ⟨key, task.tid⟩
        (Member.of task) (polled_none idle) rfl held free
        (fun asked => ready asked pc key front task found free)
      have after : ∀ t : Scheduler, t.slab = s.slab.update key
            (fun t => (t.setPolling true).setRunnable false) → t.nextTid = s.nextTid →
          t.pc = .polling key → t.roster = { s.roster.set key
            (some { Member.of task with runnable := false }) with polled := some ⟨key, task.tid⟩ } := by
        intro t slab tids pc'
        refine Roster.ext ?_ ?_ rfl tids
        · rw [roster, slab, members_update _ found]
          rfl
        · simp [roster, polled, pc', Pc.pollingAt, slab, ChunkSlab.get_update_self, found,
            DynamicFuture.setPolling, DynamicFuture.setRunnable]
      rw [after { s with
        alg := (s.alg.setCurrent (some key)).update key
          (fun t => (t.setPolling true).setRunnable false)
        pc := .polling key } rfl rfl rfl]
      exact Path.one taken
    · rw [if_pos free, if_neg free]
      by_cases cancelled : task.stopReason = .cancelled
      · obtain ⟨after, eq, removed⟩ := removeTask_removed sound.wf found
        rw [if_pos cancelled, eq]
        exact removal_simulates idle found cancelled removed rfl rfl
      · rw [if_neg cancelled, removal_live cancelled]
        exact silent rfl

/-- Removing the cancelled ones of some tasks, one after the other. -/
theorem removals_path (entries : List (TaskKey × DynamicFuture)) {m : Roster}
    (idle : m.polled = none) (calm : m.leaving = none)
    (distinct : entries.Pairwise fun a b => a.1 < b.1)
    (there : ∀ e ∈ entries, m.tasks e.1 = some (Member.of e.2)) :
    ∃ n, Path (Roster.Next strict) m (entries.flatMap fun e => removal e.1 e.2) n ∧
      n.polled = none ∧ n.leaving = none ∧ n.nextTid = m.nextTid ∧
      (∀ e ∈ entries, e.2.stopReason = .cancelled → n.tasks e.1 = none) ∧
      ∀ k, (∀ e ∈ entries, e.1 = k → e.2.stopReason ≠ .cancelled) → n.tasks k = m.tasks k := by
  induction entries generalizing m with
  | nil => exact ⟨m, .nil m, idle, calm, rfl, by simp, fun _ _ => rfl⟩
  | cons e entries ih =>
    obtain ⟨above, distinct⟩ := List.pairwise_cons.mp distinct
    rw [List.flatMap_cons]
    have here := there e List.mem_cons_self
    have others : ∀ d ∈ entries, e.1 ≠ d.1 := fun d later => Nat.ne_of_lt (above d later)
    by_cases cancelled : e.2.stopReason = .cancelled
    · have held : m.Holds ⟨e.1, e.2.tid⟩ (Member.of e.2) := ⟨here, rfl⟩
      have first : Path (Roster.Next strict) m (removal e.1 e.2)
          { m.set e.1 none with leaving := none } := by
        rw [removal, if_pos cancelled]
        exact .cons (.condemn ⟨e.1, e.2.tid⟩ _ idle calm held cancelled)
          (.cons (.retire ⟨e.1, e.2.tid⟩ _ idle rfl held) (.nil _))
      obtain ⟨n, rest, idle', calm', tids, gone, kept⟩ :=
        ih (m := { m.set e.1 none with leaving := none }) idle rfl distinct (by
          intro d later
          simpa [Roster.set, (others d later).symm] using there d (List.mem_cons_of_mem e later))
      refine ⟨n, first.append rest, idle', calm', tids, ?_, fun k live => ?_⟩
      · intro d member dead
        rcases List.mem_cons.mp member with rfl | later
        · rw [kept d.1 fun c later same => absurd same.symm (others c later)]
          simp [Roster.set]
        · exact gone d later dead
      · have other : k ≠ e.1 := fun same => live e List.mem_cons_self same.symm cancelled
        rw [kept k fun d later => live d (List.mem_cons_of_mem e later)]
        simp [Roster.set, other]
    · rw [removal_live cancelled]
      obtain ⟨n, rest, idle', calm', tids, gone, kept⟩ :=
        ih idle calm distinct (fun d later => there d (List.mem_cons_of_mem e later))
      refine ⟨n, rest, idle', calm', tids, ?_, fun k live => ?_⟩
      · intro d member dead
        rcases List.mem_cons.mp member with rfl | later
        · exact absurd dead cancelled
        · exact gone d later dead
      · exact kept k fun d later => live d (List.mem_cons_of_mem e later)

theorem members_retained {slab : ChunkSlab TaskKey DynamicFuture} (wf : slab.WellFormed)
    (k : TaskKey) :
    members (slab.retain fun _ v => decide (v.stopReason ≠ .cancelled)) k =
      (members slab k).filter fun e => decide (e.stopReason ≠ .cancelled) := by
  have value := (ChunkSlab.retain_spec wf fun _ v => decide (v.stopReason ≠ .cancelled)).2 k
  simp only [members, value, Option.filter_map]
  rfl

theorem scan_simulates (sound : Sound s) (pc : s.pc = .scan) :
    Path (Roster.Next strict) s.roster (s.shows .run)
      (s.proceed (.turn .goOn) s.alg.scan).roster := by
  have idle : s.pc.pollingAt = none := congrArg Pc.pollingAt pc
  simp only [shows, pc]
  by_cases asked : s.alg.scanRegistry = true
  · by_cases known : s.alg.toQueue.all (fun key => (s.alg.get key).isSome) = true
    · have eq : ∃ after, s.alg.scan = some after ∧ after.registry.slab =
          s.slab.retain fun _ v => decide (v.stopReason ≠ .cancelled) := by
        unfold SchedulerAlgorithm.scan
        rw [if_pos asked, if_pos known]
        exact ⟨_, rfl, rfl⟩
      obtain ⟨after, eq, slab⟩ := eq
      simp only [asked, eq, Option.isSome_some, Bool.and_self, if_true]
      obtain ⟨n, path, idle', calm, tids, gone, kept⟩ := removals_path
        s.slab.iter (m := s.roster) (polled_none idle) rfl (ChunkSlab.iter_ascending sound.wf)
        (fun e listed => members_some ((ChunkSlab.mem_iter sound.wf e.1 e.2).mp listed))
      have wf : s.slab.WellFormed := sound.wf
      have tasks : n.tasks = members after.registry.slab := by
        funext k
        rw [slab, members_retained wf]
        cases found : s.slab.get k with
        | none =>
          rw [kept k, members_none found]
          · exact members_none found
          · rintro ⟨j, task⟩ listed rfl
            cases found.symm.trans ((ChunkSlab.mem_iter sound.wf j task).mp listed)
        | some task =>
          have listed := (ChunkSlab.mem_iter sound.wf k task).mpr found
          rw [members_some found]
          by_cases dead : task.stopReason = .cancelled
          · rw [gone (k, task) listed dead]
            simp [Member.of, dead, Option.filter]
          · rw [kept k]
            · simp [roster, members_some found, Member.of, dead, Option.filter]
            · rintro ⟨j, other⟩ listed' rfl
              cases found.symm.trans ((ChunkSlab.mem_iter sound.wf j other).mp listed')
              exact dead
      have same : n = (s.proceed (.turn .goOn) (some after)).roster :=
        Roster.ext tasks (idle'.trans (by simp [roster, polled, proceed, Pc.pollingAt])) calm tids
      exact same ▸ path
    · have eq : s.alg.scan = none := by
        unfold SchedulerAlgorithm.scan
        rw [if_pos asked, if_neg known]
      simp only [eq, Option.isSome_none, Bool.and_false, Bool.false_eq_true, if_false]
      exact silent (roster_same rfl rfl idle.symm)
  · have eq : s.alg.scan = some s.alg := if_neg asked
    simp only [eq_false_of_ne_true asked, Bool.false_and, Bool.false_eq_true, if_false, eq]
    exact silent (roster_same rfl rfl idle.symm)

theorem run_simulates (sound : Sound s) (ready : Ready strict s) (h : s.run = some t) :
    Path (Roster.Next strict) s.roster (s.shows .run) t.roster := by
  have still : ∀ t : Scheduler, s.pc.pollingAt = none → t.slab = s.slab → t.nextTid = s.nextTid →
      t.pc.pollingAt = none → Path (Roster.Next strict) s.roster [] t.roster :=
    fun t idle slab tids pc' => silent (roster_same slab tids (pc'.trans idle.symm))
  unfold run at h
  split at h
  · rename_i pc
    have idle : s.pc.pollingAt = none := congrArg Pc.pollingAt pc
    cases h
    simp only [shows, pc]
    split
    · exact still _ idle rfl rfl rfl
    · exact still _ idle rfl rfl rfl
  · rename_i second prev index pc
    cases h
    simp only [shows, pc]
    exact drain_simulates sound pc
  · rename_i pc
    cases h
    simp only [shows, pc]
    exact still _ (congrArg Pc.pollingAt pc) rfl rfl rfl
  · rename_i pc
    cases h
    simp only [shows, pc]
    exact still _ (congrArg Pc.pollingAt pc) rfl rfl rfl
  · rename_i pc
    simp only [shows, pc]
    split at h
    · rename_i key front
      cases h
      rw [front]
      exact visit_simulates sound ready pc front
    · rename_i empty
      cases h
      rw [empty]
      exact still _ (congrArg Pc.pollingAt pc) rfl rfl rfl
  · rename_i pc
    cases h
    exact scan_simulates sound pc
  · rename_i beatResult pc
    have idle : s.pc.pollingAt = none := congrArg Pc.pollingAt pc
    cases h
    simp only [shows, pc, endBeat]
    split
    · exact still _ idle rfl rfl rfl
    · split <;> exact still _ idle rfl rfl rfl
  · cases h

theorem unguarded_slab (s : Scheduler) (key : TaskKey) :
    (s.unguarded key).slab = s.slab.update key (DynamicFuture.setPolling false) := by
  simp only [unguarded, SchedulerAlgorithm.dropGuard, slab]
  split <;> rfl

theorem busy_task {key : TaskKey} (sound : Sound s) (pc : s.pc = .polling key) :
    ∃ task, s.slab.get key = some task ∧ s.roster.polled = some ⟨key, task.tid⟩ ∧
      s.roster.Holds ⟨key, task.tid⟩ (Member.of task) := by
  obtain ⟨task, found⟩ := Option.isSome_iff_exists.mp (sound.known key (congrArg Pc.pollingAt pc))
  have found' : s.slab.get key = some task := found
  exact ⟨task, found', by simp [roster, polled, pc, Pc.pollingAt, found'], members_some found', rfl⟩

/-- The poll is over, and its task stays for the moment. -/
theorem unguarded_roster {key : TaskKey} (idle : t.pc.pollingAt = none)
    (slab : t.slab = (s.unguarded key).slab) (tids : t.nextTid = s.nextTid) :
    t.roster = { s.roster with polled := none } := by
  refine Roster.ext ?_ (polled_none idle) rfl tids
  change members t.slab = members s.slab
  rw [slab, unguarded_slab, members_lowered]

theorem panic_simulates (sound : Sound s) (h : s.panic = some t) :
    Path (Roster.Next strict) s.roster (s.shows .panic) t.roster := by
  unfold panic at h
  split at h
  · rename_i key pc
    cases h
    obtain ⟨task, found, busy, _⟩ := busy_task sound pc
    have at_pc : s.pc.pollingAt = some key := congrArg Pc.pollingAt pc
    simp only [shows, at_pc, at_present found]
    have left : ((s.unguarded key).goto .idle).roster = { s.roster with polled := none } :=
      unguarded_roster rfl rfl rfl
    rw [left]
    exact Path.one (.pause ⟨key, task.tid⟩ busy)
  · cases h

theorem done_simulates {isReady : Bool} (sound : Sound s) (h : s.done isReady = some t) :
    Path (Roster.Next strict) s.roster (s.shows (.done isReady)) t.roster := by
  unfold done at h
  split at h
  · rename_i key pc
    have at_pc : s.pc.pollingAt = some key := congrArg Pc.pollingAt pc
    obtain ⟨task, found, busy, held⟩ := busy_task sound pc
    simp only [shows, at_pc, at_present found, ended]
    -- the state between the end of the poll and what `rotate_once` does with the task
    let mid := (s.unguarded key).goto .rotate
    have mid_roster : mid.roster = { s.roster with polled := none } := unguarded_roster rfl rfl rfl
    have wf : mid.slab.WellFormed := by
      change (s.unguarded key).slab.WellFormed
      rw [unguarded_slab]
      exact ChunkSlab.update_wellFormed sound.wf key _
    have found' : mid.slab.get key = some (task.setPolling false) := by
      change (s.unguarded key).slab.get key = _
      rw [unguarded_slab, ChunkSlab.get_update_self, found]
      rfl
    have bound : (s.unguarded key).alg.get key = some (task.setPolling false) := found'
    have reason : (task.setPolling false).stopReason = task.stopReason := rfl
    obtain ⟨after, eq, removed⟩ := removeTask_removed wf found'
    have eq' : (s.unguarded key).alg.removeTask key = some after := eq
    cases h
    simp only [SchedulerAlgorithm.afterPoll, bound, reason]
    cases isReady with
    | true =>
      simp only [Bool.true_or, if_true, eq', proceed]
      have gone : Scheduler.roster { s.unguarded key with alg := after, pc := .rotate } =
          { s.roster.set key none with polled := none, leaving := none } := by
        refine Roster.ext ?_ (by simp [roster, polled, Pc.pollingAt]) rfl rfl
        change members after.registry.slab = _
        rw [members_removed removed]
        exact congrArg (fun m => Function.update m key none) (congrArg Roster.tasks mid_roster)
      rw [gone]
      exact .cons (.finish ⟨key, task.tid⟩ busy rfl)
        (.cons (.retire ⟨key, task.tid⟩ (Member.of task) rfl rfl held) (.nil _))
    | false =>
      have paused : Path (Roster.Next strict) s.roster [.pause ⟨key, task.tid⟩] mid.roster :=
        mid_roster ▸ Path.one (.pause ⟨key, task.tid⟩ busy)
      simp only [Bool.false_or, decide_eq_true_eq, Bool.false_eq_true, if_false]
      by_cases cancelled : task.stopReason = .cancelled
      · rw [if_pos cancelled, eq']
        have rest : Path (Roster.Next strict) mid.roster (removal key (task.setPolling false))
            (Scheduler.roster { s.unguarded key with alg := after, pc := .rotate }) :=
          removal_simulates rfl found' cancelled removed rfl rfl
        exact paused.append rest
      · rw [if_neg cancelled, removal_live cancelled]
        have same : ∀ t : Scheduler, t.slab = (s.unguarded key).slab → t.nextTid = s.nextTid →
            t.pc = .rotate → Path (Roster.Next strict) s.roster [.pause ⟨key, task.tid⟩] t.roster := by
          intro t slab tids pc'
          rw [unguarded_roster (by rw [pc']; rfl) slab tids, ← mid_roster]
          exact paused
        split
        · split <;> exact same _ rfl rfl rfl
        · exact same _ rfl rfl rfl
  · cases h

/-- Every step of the scheduler is a path of the roster, with the labels that it shows. -/
theorem step_simulates {e : Event} (sound : Sound s) (ready : Ready strict s)
    (h : s.step e = some t) : Path (Roster.Next strict) s.roster (s.shows e) t.roster := by
  cases e with
  | call c => exact call_simulates sound h
  | notify =>
    cases h
    exact silent rfl
  | store target =>
    cases h
    exact store_simulates sound target
  | poll w =>
    simp only [step, poll] at h
    split at h
    · rename_i pc
      cases h
      exact silent (roster_same rfl rfl (by rw [pc]; rfl))
    · rename_i pc
      cases h
      exact silent (roster_same rfl rfl (by rw [pc]; rfl))
    · cases h
  | run => exact run_simulates sound ready h
  | done isReady => exact done_simulates sound h
  | panic => exact panic_simulates sound h

end Steps

/-- What the scheduler shows to the outside in a run from its creation. -/
def history (es : List Event) : List Act := shown step shows new es

theorem history_path {es : List Event} {t : Scheduler} (run : exec step new es = some t) :
    Path (Roster.Next False) .empty (history es) t.roster := by
  obtain ⟨m, path, _, rfl⟩ : ∃ m, Path (Roster.Next False) .empty (history es) m ∧
      Sound t ∧ m = t.roster :=
    simulation (R := fun s m => Sound s ∧ m = s.roster)
      (fun s m e t ⟨sound, eq⟩ taken => ⟨t.roster, eq ▸ step_simulates sound (by exact nofun) taken,
        (step_change sound taken).sound sound, rfl⟩)
      ⟨new_sound, rfl⟩ run
  exact path

theorem Queued.ready {s : Scheduler} (sound : Sound s) (queued : Queued s) : Ready True s := by
  intro _ pc key front task found _
  have idle : s.alg.current = none := sound.current.trans (congrArg Pc.pollingAt pc)
  refine (queued key).ready task found (by simp [idle]) ?_
  have stands : 0 < (s.alg.spot key).inFrom :=
    List.count_pos_iff.mpr (List.mem_of_mem_head? front)
  exact Nat.add_pos_left stands _

/-- In a run of harmless steps a poll is never wasted on a sleeping task. -/
theorem harmless_history_path {es : List Event} {t : Scheduler} (run : exec step new es = some t)
    (harmless : Along step (fun s e _ => Harmless s e) new es) :
    Path (Roster.Next True) .empty (history es) t.roster := by
  obtain ⟨m, path, _, _, rfl⟩ : ∃ m, Path (Roster.Next True) .empty (history es) m ∧
      Sound t ∧ Queued t ∧ m = t.roster :=
    simulation_along (R := fun s m => Sound s ∧ Queued s ∧ m = s.roster)
      (P := fun s e _ => Harmless s e)
      (fun s m e t ⟨sound, queued, eq⟩ taken harmless =>
        have change := step_change sound taken
        ⟨t.roster, eq ▸ step_simulates sound (queued.ready sound) taken, change.sound sound,
          change.queued sound queued harmless, rfl⟩)
      ⟨new_sound, new_queued, rfl⟩ run harmless
  exact path

end Scheduler
end Juggle.Dy
