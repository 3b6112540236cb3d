import Juggle.Dy.Spot

/-! One step of the scheduler with queues, told by what it does to the spots of the keys,
and what holds in every state whichever way the handles are used. -/
namespace Juggle.Dy
open Juggle.Utils Juggle.Runs

namespace Scheduler

/-- The key whose task is in the middle of `poll_local`. -/
def Pc.pollingAt : Pc → Option TaskKey
  | .polling key => some key
  | _ => none

/-- What a handle call or a wake can do to a key. -/
inductive Request (current : Bool) (e : Event) (key : TaskKey) (p : Spot) : Spot → Prop where
  | spawn (tid : Tid) (params : SpawnParams) (fresh : p.task = none) :
      Request current e key p (p.spawned (DynamicFuture.new tid params))
  | resume (event : e = .call (.resume key)) : Request current e key p (p.resumed current)
  | suspend : Request current e key p p.suspended
  | cancel : Request current e key p p.cancelled
  | wake (tid : Tid) : Request current e key p (p.woken tid)

/-- A key in one of the containers has no task. -/
inductive Stray (s : Scheduler) : Prop where
  | inDeferred (key : TaskKey) (stands : key ∈ s.alg.deferred) (gone : s.alg.get key = none)
  | inFrom (key : TaskKey) (pc : s.pc = .rotate) (front : s.alg.fromQueue.head? = some key)
      (gone : s.alg.get key = none)
  | inTo (key : TaskKey) (stands : key ∈ s.alg.toQueue) (gone : s.alg.get key = none)

/-- What one step does to the spots of the keys. -/
inductive Change (s : Scheduler) (e : Event) (t : Scheduler) : Prop where
  | still (spots : t.alg.spot = s.alg.spot) (registry : t.alg.registry = s.alg.registry)
      (current : t.alg.current = s.alg.current) (fromQueue : t.alg.fromQueue = s.alg.fromQueue)
      (pc : t.pc = s.pc ∨ s.pc.pollingAt = none ∧ t.pc.pollingAt = none ∧ t.pc ≠ .broken)
      (empty : t.pc = .scan → s.pc = .scan ∨ s.alg.fromQueue = [])
  | request (key : TaskKey) (q : Spot)
      (request : Request (decide (s.alg.current = some key)) e key (s.alg.spot key) q)
      (handled : s.alg.Handled key q t.alg)
      (pc : t.pc = s.pc ∨ s.pc.pollingAt = none ∧ t.pc = .idle)
  | drained (elem : TaskKey) (pc : s.pc.pollingAt = none) (stands : elem ∈ s.alg.deferred)
      (moves : s.alg.Moves elem (s.alg.spot elem).drained t.alg)
      (pc' : ∃ second prev index, t.pc = .drain second prev index)
  | condemned (key : TaskKey) (event : e = .run) (pc : s.pc = .rotate)
      (front : s.alg.fromQueue.head? = some key) (cancelled : s.alg.isCancelled key = true)
      (handled : s.alg.Handled key ((s.alg.spot key).setTask none) t.alg) (pc' : t.pc = .rotate)
  | pollBegun (key : TaskKey) (task : DynamicFuture) (event : e = .run) (pc : s.pc = .rotate)
      (front : s.alg.fromQueue.head? = some key) (found : s.alg.get key = some task)
      (reason : task.stopReason = .none) (wf : t.alg.registry.slab.WellFormed)
      (spots : t.alg.spot = Function.update s.alg.spot key (s.alg.spot key).pollBegun)
      (current : t.alg.current = some key) (fromQueue : t.alg.fromQueue = s.alg.fromQueue)
      (pc' : t.pc = .polling key)
  | polled (key : TaskKey) (isReady : Bool) (event : e = .done isReady) (pc : s.pc = .polling key)
      (wf : t.alg.registry.slab.WellFormed)
      (spots : t.alg.spot =
        Function.update s.alg.spot key ((s.alg.spot key).unguarded.polled isReady))
      (current : t.alg.current = none) (fromQueue : t.alg.fromQueue = s.alg.fromQueue.tail)
      (pc' : t.pc = .rotate)
  | panicked (key : TaskKey) (event : e = .panic) (pc : s.pc = .polling key)
      (wf : t.alg.registry.slab.WellFormed)
      (spots : t.alg.spot = Function.update s.alg.spot key (s.alg.spot key).unguarded)
      (current : t.alg.current = none) (pc' : t.pc = .idle)
  | scanned (event : e = .run) (pc : s.pc = .scan) (wf : t.alg.registry.slab.WellFormed)
      (spots : ∀ k, t.alg.spot k =
        if s.alg.scanRegistry then (s.alg.spot k).swept else s.alg.spot k)
      (current : t.alg.current = s.alg.current) (pc' : t.pc = .turn .goOn)
  | turned (beatResult : Rotate) (pc : s.pc = .turn beatResult)
      (registry : t.alg.registry = s.alg.registry)
      (spots : ∀ k, t.alg.spot k = (s.alg.spot k).turned)
      (current : t.alg.current = s.alg.current) (pc' : t.pc = .clear ∨ ∃ v, t.pc = .returned v)
  | broke (stray : Stray s) (alg : t.alg = s.alg) (pc : s.pc.pollingAt = none) (pc' : t.pc = .broken)

/-- What holds in every state, however the handles are used. -/
structure Sound (s : Scheduler) : Prop where
  wf : s.alg.registry.slab.WellFormed
  current : s.alg.current = s.pc.pollingAt
  flags : ∀ k, (s.alg.spot k).polling = true → s.pc.pollingAt = some k
  front : ∀ k, s.pc.pollingAt = some k → s.alg.fromQueue.head? = some k
  known : ∀ k, s.pc.pollingAt = some k → (s.alg.spot k).task.isSome = true
  empty : s.pc = .scan → s.alg.fromQueue = []

/-- A request binds a new task or writes to the old one, never to its `polling`. -/
theorem Request.task {current : Bool} {e : Event} {key : TaskKey} {p q : Spot}
    (request : Request current e key p q) :
    (p.task = none ∧ ∃ tid params, q.task = some (DynamicFuture.new tid params)) ∨
      ∃ f : DynamicFuture → DynamicFuture, (∀ t, (f t).polling = t.polling) ∧
        q.task = p.task.map f := by
  have same : ∃ f : DynamicFuture → DynamicFuture, (∀ t, (f t).polling = t.polling) ∧
      p.task = p.task.map f := ⟨id, fun _ => rfl, Option.map_id.symm ▸ rfl⟩
  cases request with
  | spawn tid params fresh =>
    refine Or.inl ⟨fresh, tid, params, ?_⟩
    unfold Spot.spawned
    split <;> rfl
  | resume event =>
    refine Or.inr ?_
    unfold Spot.resumed
    split
    · split
      · split <;> exact ⟨DynamicFuture.setStopReason .none, fun _ => rfl, rfl⟩
      · exact same
    · exact same
  | suspend =>
    refine Or.inr ?_
    unfold Spot.suspended
    split
    · split
      · split <;> exact ⟨DynamicFuture.setStopReason .suspended, fun _ => rfl, rfl⟩
      · exact same
    · exact same
  | cancel =>
    refine Or.inr ?_
    unfold Spot.cancelled
    split
    · split
      · exact ⟨DynamicFuture.setStopReason .cancelled, fun _ => rfl, rfl⟩
      · exact same
    · exact same
  | wake tid =>
    refine Or.inr ?_
    unfold Spot.woken
    split
    · split
      · exact ⟨DynamicFuture.setRunnable true, fun _ => rfl, rfl⟩
      · exact same
    · exact same

theorem Request.polling_of {current : Bool} {e : Event} {key : TaskKey} {p q : Spot}
    (request : Request current e key p q) (raised : q.polling = true) : p.polling = true := by
  rcases request.task with ⟨_, tid, params, bound⟩ | ⟨f, keeps, bound⟩
  · rw [Spot.polling, bound] at raised
    cases raised
  · rw [Spot.polling, bound] at raised
    rw [Spot.polling]
    cases held : p.task with
    | none => simp [held] at raised
    | some task => simpa [held, keeps] using raised

theorem Request.known {current : Bool} {e : Event} {key : TaskKey} {p q : Spot}
    (request : Request current e key p q) (known : p.task.isSome = true) : q.task.isSome = true := by
  rcases request.task with ⟨fresh, _⟩ | ⟨f, keeps, bound⟩
  · simp [fresh] at known
  · simpa [bound] using known

theorem storeRunnable_handled {s : Scheduler} (wf : s.alg.registry.slab.WellFormed)
    (target : TaskRef) :
    s.alg.Handled target.key ((s.alg.spot target.key).woken target.tid)
      (s.storeRunnable target).alg := by
  unfold storeRunnable Spot.woken
  cases found : s.alg.get target.key with
  | none =>
    have here : (s.alg.spot target.key).task = none := found
    simp only [here]
    exact .refl wf target.key
  | some task =>
    have here : (s.alg.spot target.key).task = some task := found
    simp only [here]
    by_cases own : task.tid = target.tid
    · rw [if_pos own, if_pos own]
      exact SchedulerAlgorithm.update_handled wf target.key (DynamicFuture.setRunnable true)
    · rw [if_neg own, if_neg own]
      exact .refl wf target.key

@[simp] theorem storeRunnable_pc (s : Scheduler) (target : TaskRef) :
    (s.storeRunnable target).pc = s.pc := by
  unfold storeRunnable
  split
  · split <;> rfl
  · rfl

@[simp] theorem perform_pc (s : Scheduler) (c : Call) : (s.perform c).pc = s.pc := by
  cases c with
  | wake target => exact storeRunnable_pc (s.setLastWaker none) target
  | _ => rfl

theorem perform_request {s : Scheduler} (wf : s.alg.registry.slab.WellFormed) (c : Call) :
    s.perform c = s ∨ ∃ key q, Request (decide (s.alg.current = some key)) (.call c) key
      (s.alg.spot key) q ∧ s.alg.Handled key q (s.perform c).alg := by
  cases c with
  | register params =>
    obtain ⟨key, answer, fresh, handled⟩ :=
      SchedulerAlgorithm.register_handled wf (DynamicFuture.new s.nextTid params)
    exact Or.inr ⟨key, _, .spawn s.nextTid params fresh, handled⟩
  | suspend key => exact Or.inr ⟨key, _, .suspend, SchedulerAlgorithm.suspend_handled wf key⟩
  | resume key => exact Or.inr ⟨key, _, .resume rfl, SchedulerAlgorithm.resume_handled wf key⟩
  | cancel key => exact Or.inr ⟨key, _, .cancel, SchedulerAlgorithm.cancel_handled wf key⟩
  | getState key => exact Or.inl rfl
  | getByName name => exact Or.inl rfl
  | registeredCount => exact Or.inl rfl
  | wake target =>
    have wf' : (s.setLastWaker none).alg.registry.slab.WellFormed := wf
    have handled := storeRunnable_handled wf' target
    exact Or.inr ⟨target.key, _, .wake target.tid,
      ⟨⟨handled.wf, handled.spots, handled.current⟩, handled.fromQueue⟩⟩

theorem Change.of_alg {s t : Scheduler} {e : Event} (alg : t.alg = s.alg)
    (pc : t.pc = s.pc ∨ s.pc.pollingAt = none ∧ t.pc.pollingAt = none ∧ t.pc ≠ .broken)
    (empty : t.pc = .scan → s.pc = .scan ∨ s.alg.fromQueue = []) : Change s e t :=
  .still (by rw [alg]) (by rw [alg]) (by rw [alg]) (by rw [alg]) pc empty

theorem call_change {s t : Scheduler} {c : Call} (wf : s.alg.registry.slab.WellFormed)
    (h : s.call c = some t) : Change s (.call c) t := by
  have step : t.alg = (s.perform c).alg ∧ (t.pc = s.pc ∨ s.pc.pollingAt = none ∧ t.pc = .idle) := by
    unfold call at h
    split at h
    · rename_i pc
      cases h
      exact ⟨rfl, Or.inl (perform_pc s c)⟩
    · rename_i v pc
      cases h
      exact ⟨rfl, Or.inr ⟨congrArg Pc.pollingAt pc, rfl⟩⟩
    · rename_i key pc
      cases h
      exact ⟨rfl, Or.inl (perform_pc s c)⟩
    · cases h
  obtain ⟨alg, pc⟩ := step
  rcases perform_request wf c with same | ⟨key, q, request, handled⟩
  · rw [same] at alg
    refine .of_alg alg (pc.imp_right fun left => ?_) (fun scan => ?_)
    · rw [left.2]
      exact ⟨left.1, rfl, nofun⟩
    · rcases pc with pc | ⟨_, pc⟩
      · exact Or.inl (pc.symm.trans scan)
      · rw [pc] at scan
        cases scan
  · exact .request key q request (alg ▸ handled) pc

theorem endDrain_change {s : Scheduler} {second : Bool} {prev index : Nat}
    (pc : s.pc = .drain second prev index) : Change s .run (s.endDrain second prev) := by
  have plain : s.pc.pollingAt = none := congrArg Pc.pollingAt pc
  unfold endDrain
  dsimp only
  split
  · split <;> exact .of_alg rfl (Or.inr ⟨plain, rfl, nofun⟩) nofun
  · split <;> exact .of_alg rfl (Or.inr ⟨plain, rfl, nofun⟩) nofun

theorem drain_change {s : Scheduler} {second : Bool} {prev index : Nat} (sound : Sound s)
    (pc : s.pc = .drain second prev index) : Change s .run (s.drain second prev index) := by
  have plain : s.pc.pollingAt = none := congrArg Pc.pollingAt pc
  unfold drain
  cases place : s.alg.deferred[index]? with
  | none => exact endDrain_change pc
  | some elem =>
    have stands : elem ∈ s.alg.deferred := List.mem_of_getElem? place
    cases found : s.alg.get elem with
    | none =>
      have fails : s.alg.drainElem elem = none := by simp only [SchedulerAlgorithm.drainElem, found]
      simp only [fails]
      exact .broke (.inDeferred elem stands found) rfl plain rfl
    | some task =>
      obtain ⟨keep, after, taken, moves⟩ :=
        SchedulerAlgorithm.drainElem_moves sound.wf place (found ▸ rfl)
      simp only [taken]
      cases keep with
      | true => exact .drained elem plain stands moves ⟨second, prev, index + 1, rfl⟩
      | false => exact .drained elem plain stands moves ⟨second, prev, index, rfl⟩

theorem Sound.lowered {s : Scheduler} (sound : Sound s) (plain : s.pc.pollingAt = none)
    (k : TaskKey) : (s.alg.spot k).polling ≠ true := by
  intro raised
  have := sound.flags k raised
  rw [plain] at this
  cases this

/-- Between two polls no task is under way, so `poll_local` does not refuse. -/
theorem pollLocal_eq {s : Scheduler} {key : TaskKey} {task : DynamicFuture} (sound : Sound s)
    (pc : s.pc = .rotate) (found : s.alg.get key = some task) :
    s.pollLocal key task =
      { s with
        alg := (s.alg.setCurrent (some key)).update key
          (fun t => (t.setPolling true).setRunnable false)
        pc := .polling key } := by
  have lowered := sound.lowered (congrArg Pc.pollingAt pc) key
  simp only [Spot.polling, SchedulerAlgorithm.spot, found, Option.any_some] at lowered
  exact if_neg lowered

theorem pollLocal_change {s : Scheduler} {key : TaskKey} {task : DynamicFuture} (sound : Sound s)
    (pc : s.pc = .rotate) (front : s.alg.fromQueue.head? = some key)
    (found : s.alg.get key = some task) (reason : task.stopReason = .none) :
    Change s .run (s.pollLocal key task) := by
  have wf : (s.alg.setCurrent (some key)).registry.slab.WellFormed := sound.wf
  have moves := SchedulerAlgorithm.update_handled wf key
    (fun t => (t.setPolling true).setRunnable false)
  rw [pollLocal_eq sound pc found]
  exact .pollBegun key task rfl pc front found reason moves.wf moves.spots rfl rfl rfl

theorem visit_change {s : Scheduler} {key : TaskKey} (sound : Sound s) (pc : s.pc = .rotate)
    (front : s.alg.fromQueue.head? = some key) : Change s .run (s.visit key) := by
  have plain : s.pc.pollingAt = none := congrArg Pc.pollingAt pc
  unfold visit
  cases found : s.alg.get key with
  | none => exact .broke (.inFrom key pc front found) rfl plain rfl
  | some task =>
    dsimp only
    split
    · split
      · rename_i cancelled
        obtain ⟨after, removed, same, handled⟩ :=
          SchedulerAlgorithm.removeTask_handled sound.wf found
        have marked : s.alg.isCancelled key = true := by
          simp [SchedulerAlgorithm.isCancelled, found, cancelled]
        rw [removed]
        exact .condemned key rfl pc front marked handled rfl
      · exact .of_alg rfl (Or.inl rfl) Or.inl
    · rename_i free
      exact pollLocal_change sound pc front found (by simpa using free)

theorem scan_change {s : Scheduler} (sound : Sound s) (pc : s.pc = .scan) :
    Change s .run (s.proceed (.turn .goOn) s.alg.scan) := by
  have plain : s.pc.pollingAt = none := congrArg Pc.pollingAt pc
  by_cases known : s.alg.scanRegistry = true → ∀ key ∈ s.alg.toQueue, (s.alg.get key).isSome = true
  · obtain ⟨after, eq, wf, current, fromQueue, spots⟩ :=
      SchedulerAlgorithm.scan_spec sound.wf known
    rw [eq]
    exact .scanned rfl pc wf spots current rfl
  · simp only [Classical.not_imp, not_forall, Option.not_isSome_iff_eq_none] at known
    obtain ⟨asked, key, stands, gone⟩ := known
    have fails : s.alg.scan = none := by
      have missing : ¬ s.alg.toQueue.all (fun key => (s.alg.get key).isSome) = true := by
        intro all
        have := List.all_eq_true.mp all key stands
        rw [gone] at this
        cases this
      unfold SchedulerAlgorithm.scan
      rw [if_pos asked, if_neg missing]
    rw [fails]
    exact .broke (.inTo key stands gone) rfl plain rfl

theorem endBeat_change {s : Scheduler} {beatResult : Rotate} (pc : s.pc = .turn beatResult) :
    Change s .run (s.endBeat beatResult) := by
  have spots := SchedulerAlgorithm.turn_spot s.alg
  unfold endBeat
  dsimp only
  split
  · exact .turned beatResult pc rfl spots rfl (Or.inr ⟨_, rfl⟩)
  · split
    · exact .turned beatResult pc rfl spots rfl (Or.inr ⟨_, rfl⟩)
    · exact .turned beatResult pc rfl spots rfl (Or.inl rfl)

theorem run_change {s t : Scheduler} (sound : Sound s) (h : s.run = some t) : Change s .run t := by
  unfold run at h
  split at h
  · rename_i pc
    have plain : s.pc.pollingAt = none := congrArg Pc.pollingAt pc
    cases h
    split <;> exact .still rfl rfl rfl rfl (Or.inr ⟨plain, rfl, nofun⟩) nofun
  · rename_i second prev index pc
    cases h
    exact drain_change sound pc
  · rename_i pc
    have plain : s.pc.pollingAt = none := congrArg Pc.pollingAt pc
    cases h
    exact .still rfl rfl rfl rfl (Or.inr ⟨plain, rfl, nofun⟩) nofun
  · rename_i pc
    have plain : s.pc.pollingAt = none := congrArg Pc.pollingAt pc
    cases h
    exact .still rfl rfl rfl rfl (Or.inr ⟨plain, rfl, nofun⟩) nofun
  · rename_i pc
    have plain : s.pc.pollingAt = none := congrArg Pc.pollingAt pc
    cases front : s.alg.fromQueue.head? with
    | none =>
      rw [front] at h
      cases h
      exact .of_alg rfl (Or.inr ⟨plain, rfl, nofun⟩) fun _ => Or.inr (List.head?_eq_none_iff.mp front)
    | some key =>
      rw [front] at h
      cases h
      exact visit_change sound pc front
  · rename_i pc
    cases h
    exact scan_change sound pc
  · rename_i beatResult pc
    cases h
    exact endBeat_change pc
  · cases h

theorem done_spec {s : Scheduler} {key : TaskKey} (sound : Sound s) (pc : s.pc = .polling key)
    (isReady : Bool) :
    ∃ after, s.done isReady = some { s.unguarded key with alg := after, pc := .rotate } ∧
      after.registry.slab.WellFormed ∧
      after.spot = Function.update s.alg.spot key ((s.alg.spot key).unguarded.polled isReady) ∧
      after.current = none ∧ after.fromQueue = s.alg.fromQueue.tail := by
  have at_pc : s.pc.pollingAt = some key := congrArg Pc.pollingAt pc
  obtain ⟨wf, current, fromQueue, spots⟩ :=
    SchedulerAlgorithm.unguarded_spec sound.wf (sound.front key at_pc)
  have here : (s.unguarded key).alg.spot key = (s.alg.spot key).unguarded := by
    rw [spots, Function.update_self]
  have known : ((s.unguarded key).alg.get key).isSome = true := by
    have task : (s.unguarded key).alg.get key =
        (s.alg.get key).map (DynamicFuture.setPolling false) := congrArg Spot.task here
    rw [task, Option.isSome_map]
    exact sound.known key at_pc
  obtain ⟨task, found⟩ := Option.isSome_iff_exists.mp known
  obtain ⟨after, eq, handled⟩ := SchedulerAlgorithm.afterPoll_handled wf found isReady
  have after_spots := handled.spots
  rw [here, spots, Function.update_idem] at after_spots
  refine ⟨after, ?_, handled.wf, after_spots, handled.current.trans current,
    handled.fromQueue.trans fromQueue⟩
  simp only [done, pc, eq]
  rfl

theorem done_change {s t : Scheduler} {isReady : Bool} (sound : Sound s)
    (h : s.done isReady = some t) : Change s (.done isReady) t := by
  have polls : ∃ key, s.pc = .polling key := by
    unfold done at h
    split at h
    · rename_i key pc
      exact ⟨key, pc⟩
    · cases h
  obtain ⟨key, pc⟩ := polls
  obtain ⟨after, eq, wf, spots, current, fromQueue⟩ := done_spec sound pc isReady
  rw [eq] at h
  cases h
  exact .polled key isReady rfl pc wf spots current fromQueue rfl

theorem panic_change {s t : Scheduler} (sound : Sound s) (h : s.panic = some t) :
    Change s .panic t := by
  unfold panic at h
  split at h
  · rename_i key pc
    cases h
    obtain ⟨wf, current, fromQueue, spots⟩ :=
      SchedulerAlgorithm.unguarded_spec sound.wf (sound.front key (congrArg Pc.pollingAt pc))
    exact .panicked key rfl pc wf spots current rfl
  · cases h

theorem step_change {s t : Scheduler} {e : Event} (sound : Sound s) (h : s.step e = some t) :
    Change s e t := by
  cases e with
  | call c => exact call_change sound.wf h
  | notify =>
    cases h
    exact .still rfl rfl rfl rfl (Or.inl rfl) Or.inl
  | store target =>
    cases h
    exact .request target.key _ (.wake target.tid) (storeRunnable_handled sound.wf target)
      (Or.inl (storeRunnable_pc s target))
  | poll w =>
    simp only [step, poll] at h
    split at h
    · rename_i pc
      cases h
      exact .of_alg rfl (Or.inr ⟨congrArg Pc.pollingAt pc, rfl, nofun⟩) nofun
    · rename_i v pc
      cases h
      exact .of_alg rfl (Or.inr ⟨congrArg Pc.pollingAt pc, rfl, nofun⟩) nofun
    · cases h
  | run => exact run_change sound h
  | done isReady => exact done_change sound h
  | panic => exact panic_change sound h

/-- A poll flag is only raised where a poll begins. -/
theorem flags_kept {s t : Scheduler} (sound : Sound s)
    (lowers : ∀ k, (t.alg.spot k).polling = true → (s.alg.spot k).polling = true)
    (pc : t.pc.pollingAt = s.pc.pollingAt) (k : TaskKey) (raised : (t.alg.spot k).polling = true) :
    t.pc.pollingAt = some k :=
  pc.trans (sound.flags k (lowers k raised))

theorem new_sound : Sound new where
  wf := ChunkSlab.new_wellFormed
  current := rfl
  flags k raised := by cases raised
  front k h := by cases h
  known k h := by cases h
  empty h := by cases h

theorem lowers_update {a b : TaskKey → Spot} {key : TaskKey} {q : Spot}
    (spots : b = Function.update a key q) (here : q.polling = true → (a key).polling = true)
    (k : TaskKey) (raised : (b k).polling = true) : (a k).polling = true := by
  rw [spots] at raised
  by_cases same : k = key
  · rw [same, Function.update_self] at raised
    exact same ▸ here raised
  · rwa [Function.update_of_ne same] at raised

/-- Outside of a poll all that matters is that no poll flag is raised. -/
theorem sound_plain {t : Scheduler} (wf : t.alg.registry.slab.WellFormed)
    (plain : t.pc.pollingAt = none) (current : t.alg.current = none)
    (lowered : ∀ k, (t.alg.spot k).polling ≠ true) (empty : t.pc = .scan → t.alg.fromQueue = []) :
    Sound t where
  wf := wf
  current := current.trans plain.symm
  flags k raised := absurd raised (lowered k)
  front k h := by rw [plain] at h; cases h
  known k h := by rw [plain] at h; cases h
  empty := empty

theorem polling_drained {p : Spot} (raised : p.drained.polling = true) : p.polling = true := by
  unfold Spot.drained at raised
  split at raised
  · dsimp only at raised
    split at raised
    · exact raised
    · split at raised
      · cases raised
      · split at raised <;> exact raised
  · exact raised

theorem polling_swept {p : Spot} (raised : p.swept.polling = true) : p.polling = true := by
  unfold Spot.swept at raised
  split at raised
  · cases raised
  · exact raised

theorem polling_polled {p : Spot} {isReady : Bool} (raised : (p.polled isReady).polling = true) :
    p.polling = true := by
  unfold Spot.polled at raised
  split at raised
  · split at raised
    · cases raised
    · split at raised
      · split at raised <;> exact raised
      · exact raised
  · exact raised

theorem polling_unguarded (p : Spot) : p.unguarded.polling ≠ true := by
  cases held : p.task <;>
    simp [Spot.polling, Spot.unguarded, Spot.setFrom, Spot.write, held, DynamicFuture.setPolling]

/-- The flag of the polled task was the only one. -/
theorem Sound.lowered_after {s t : Scheduler} {key : TaskKey} {q : Spot} (sound : Sound s)
    (pc : s.pc = .polling key) (spots : t.alg.spot = Function.update s.alg.spot key q)
    (here : q.polling ≠ true) (k : TaskKey) : (t.alg.spot k).polling ≠ true := by
  intro raised
  rw [spots] at raised
  by_cases same : k = key
  · rw [same, Function.update_self] at raised
    exact here raised
  · rw [Function.update_of_ne same] at raised
    have := sound.flags k raised
    rw [pc] at this
    exact same (Option.some.inj this).symm

theorem Change.sound {s t : Scheduler} {e : Event} (sound : Sound s) (change : Change s e t) :
    Sound t := by
  cases change with
  | still spots registry current fromQueue pc empty =>
    have at_pc : t.pc.pollingAt = s.pc.pollingAt := by
      rcases pc with pc | ⟨out, out', _⟩
      · rw [pc]
      · rw [out, out']
    refine ⟨registry ▸ sound.wf, current.trans (sound.current.trans at_pc.symm), ?_, ?_, ?_, ?_⟩
    · exact flags_kept sound (fun k raised => spots ▸ raised) at_pc
    · exact fun k h => fromQueue ▸ sound.front k (at_pc ▸ h)
    · exact fun k h => spots ▸ sound.known k (at_pc ▸ h)
    · intro scan
      rcases empty scan with was | none
      · exact fromQueue.trans (sound.empty was)
      · exact fromQueue.trans none
  | request key q request handled pc =>
    have at_pc : t.pc.pollingAt = s.pc.pollingAt := by
      rcases pc with pc | ⟨out, out'⟩
      · rw [pc]
      · rw [out, out']
        rfl
    refine ⟨handled.wf, handled.current.trans (sound.current.trans at_pc.symm), ?_, ?_, ?_, ?_⟩
    · exact flags_kept sound (lowers_update handled.spots request.polling_of) at_pc
    · exact fun k h => handled.fromQueue ▸ sound.front k (at_pc ▸ h)
    · intro k h
      have before := sound.known k (at_pc ▸ h)
      by_cases same : k = key
      · subst same
        rw [handled.here]
        exact request.known before
      · rwa [handled.other same]
    · intro scan
      rcases pc with pc | ⟨_, pc⟩
      · exact handled.fromQueue.trans (sound.empty (pc.symm.trans scan))
      · rw [pc] at scan
        cases scan
  | drained elem pc stands moves pc' =>
    obtain ⟨second, prev, index, pc'⟩ := pc'
    refine sound_plain moves.wf (by rw [pc']; rfl) ?_ (fun k raised => ?_) (by rw [pc']; nofun)
    · exact moves.current.trans (sound.current.trans pc)
    · exact sound.lowered pc k (lowers_update moves.spots polling_drained k raised)
  | condemned key event pc front cancelled handled pc' =>
    have plain : s.pc.pollingAt = none := congrArg Pc.pollingAt pc
    refine sound_plain handled.wf (by rw [pc']; rfl) ?_ (fun k raised => ?_) (by rw [pc']; nofun)
    · exact handled.current.trans (sound.current.trans plain)
    · exact sound.lowered plain k (lowers_update handled.spots nofun k raised)
  | pollBegun key task event pc front found reason wf spots current fromQueue pc' =>
    have plain : s.pc.pollingAt = none := congrArg Pc.pollingAt pc
    have at_pc : t.pc.pollingAt = some key := congrArg Pc.pollingAt pc'
    refine ⟨wf, current.trans at_pc.symm, fun k raised => ?_, fun k h => ?_, fun k h => ?_, ?_⟩
    · by_cases same : k = key
      · rw [same, at_pc]
      · rw [spots, Function.update_of_ne same] at raised
        exact absurd raised (sound.lowered plain k)
    · rw [at_pc] at h
      rw [fromQueue, front, h]
    · rw [at_pc] at h
      cases h
      have here : (s.alg.spot key).task = some task := found
      rw [spots, Function.update_self, Spot.pollBegun, Spot.write, here]
      rfl
    · intro scan
      rw [pc'] at scan
      cases scan
  | polled key isReady event pc wf spots current fromQueue pc' =>
    have here : ((s.alg.spot key).unguarded.polled isReady).polling ≠ true :=
      fun raised => polling_unguarded _ (polling_polled raised)
    exact sound_plain wf (by rw [pc']; rfl) current (sound.lowered_after pc spots here)
      (by rw [pc']; nofun)
  | panicked key event pc wf spots current pc' =>
    exact sound_plain wf (by rw [pc']; rfl) current
      (sound.lowered_after pc spots (polling_unguarded _)) (by rw [pc']; nofun)
  | scanned event pc wf spots current pc' =>
    have plain : s.pc.pollingAt = none := congrArg Pc.pollingAt pc
    refine sound_plain wf (by rw [pc']; rfl) (current.trans (sound.current.trans plain))
      (fun k raised => ?_) (by rw [pc']; nofun)
    rw [spots] at raised
    split at raised
    · exact sound.lowered plain k (polling_swept raised)
    · exact sound.lowered plain k raised
  | turned beatResult pc registry spots current pc' =>
    have plain : s.pc.pollingAt = none := congrArg Pc.pollingAt pc
    refine sound_plain (registry ▸ sound.wf) ?_ (current.trans (sound.current.trans plain))
      (fun k raised => ?_) ?_
    · rcases pc' with pc' | ⟨v, pc'⟩ <;> rw [pc'] <;> rfl
    · rw [spots] at raised
      exact sound.lowered plain k raised
    · rcases pc' with pc' | ⟨v, pc'⟩ <;> rw [pc'] <;> nofun
  | broke stray alg pc pc' =>
    refine sound_plain (alg ▸ sound.wf) (by rw [pc']; rfl) ?_ ?_ (by rw [pc']; nofun)
    · rw [alg]
      exact sound.current.trans pc
    · rw [alg]
      exact sound.lowered pc

/-- Every run keeps the scheduler sound. -/
theorem reachable_sound {s : Scheduler} (reach : Reachable step (fun s => s = new) s) : Sound s :=
  invariant_reachable (fun _ start => start ▸ new_sound)
    (fun _ _ _ sound h => (step_change sound h).sound sound) reach

end Scheduler
end Juggle.Dy
