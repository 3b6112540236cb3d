import Mathlib.Algebra.BigOperators.Group.Finset.Piecewise
import Mathlib.Algebra.Order.BigOperators.Group.Finset
import Mathlib.Data.Prod.Lex
import Juggle.Dy.Unwinding
import Juggle.Utils.SlabMap

/-! Tasks whose bodies are finite scripts. A poll runs a script up to the point where it
returns, so the polls that `poll_internal` makes are paid for by the steps the scripts
have left, and every pair of sweeps without a poll ends it. -/
namespace Juggle.Dy
open Juggle.Utils Juggle.Runs

/-- What a script does through handles and wakers, spawning apart. Which task it is done
to is left open. -/
inductive Deed where
  | wake
  | suspend
  | resume
  | cancel

def Deed.fits : Deed → Call → Bool
  | .wake, .wake _ => true
  | .suspend, .suspend _ => true
  | .resume, .resume _ => true
  | .cancel, .cancel _ => true
  | _, _ => false

/-- The body of a task: `pending` and `ready` end a poll, and what comes after `pending`
is for the next one. -/
inductive Script where
  | ready
  | pending (rest : Script)
  | act (deed : Deed) (rest : Script)
  | spawn (body rest : Script)

namespace Script

/-- The steps of a script and of all scripts that it spawns. -/
def steps : Script → Nat
  | .ready => 1
  | .pending rest => rest.steps + 1
  | .act _ rest => rest.steps
  | .spawn body rest => body.steps + rest.steps

/-- The calls before the end of the step. -/
def acts : Script → Nat
  | .act _ rest => rest.acts + 1
  | .spawn _ rest => rest.acts + 1
  | _ => 0

theorem steps_pos (script : Script) : 0 < script.steps := by
  induction script with
  | ready => exact Nat.one_pos
  | pending rest ih => exact Nat.succ_pos _
  | act deed rest ih => exact ih
  | spawn body rest left right => exact Nat.add_pos_right _ right

end Script

/-- The wheel and what is left of the bodies of its tasks. -/
structure Scripted where
  wheel : Wheel
  bodies : Tid → Option Script

namespace Scripted
open Wheel

/-- The steps that a task has left. -/
def stepsOf (bodies : Tid → Option Script) (tid : Tid) : Nat := (bodies tid).elim 0 Script.steps

/-- The steps that all tasks have left. -/
def left (s : Scripted) : Nat := ∑ tid ∈ Finset.range s.wheel.nextTid, stepsOf s.bodies tid

/-- The task that is being polled and what is left of its body. -/
def running (s : Scripted) : Option (Tid × Script) :=
  match s.wheel.pc with
  | .polling _ _ tid => (s.bodies tid).map fun body => (tid, body)
  | _ => none

/-- The wheel takes a step and the bodies change. -/
def take (s : Scripted) (e : Event) (bodies : Tid → Option Script) : Option Scripted :=
  (s.wheel.step e).map fun wheel => ⟨wheel, bodies⟩

/-- The steps of `poll_internal`, where user code is the script of the task being polled. -/
def step (s : Scripted) (e : Event) : Option Scripted :=
  match e with
  | .run => s.take e s.bodies
  | .dropped => s.take e s.bodies
  | .call c =>
    match s.running with
    | some (tid, .act deed rest) =>
      if deed.fits c then s.take e (Function.update s.bodies tid (some rest)) else none
    | some (tid, .spawn body rest) =>
      match c with
      | .register _ =>
        s.take e (Function.update (Function.update s.bodies tid (some rest)) s.wheel.nextTid
          (some body))
      | _ => none
    | _ => none
  | .done isReady =>
    match s.running, isReady with
    | some (tid, .pending rest), false => s.take e (Function.update s.bodies tid (some rest))
    | some (tid, .ready), true => s.take e (Function.update s.bodies tid none)
    | _, _ => none
  | _ => none

/-- The registered tasks get their bodies. -/
def load (s : Wheel) (body : Tid → Script) : Scripted where
  wheel := s
  bodies tid := if s.slab.iter.any (fun e => e.2.tid == tid) then some (body tid) else none

section Frames

theorem perform_inner (s : Wheel) (c : Call) : (s.perform c).inner = s.inner := by
  cases c with
  | wake target =>
    have notified : s.notifyWake.inner = s.inner := by
      unfold notifyWake
      split <;> rfl
    rcases storeRunnable_cases s.notifyWake target with no | ⟨task, found, identity, yes⟩
    · simp only [perform, wake, no, notified]
    · simp only [perform, wake, yes]
      exact notified
  | _ => rfl

/-- Only a registration hands out an identity. -/
theorem perform_nextTid (s : Wheel) {c : Call} {deed : Deed} (fits : deed.fits c = true) :
    (s.perform c).nextTid = s.nextTid := by
  cases c with
  | wake target =>
    rcases storeRunnable_cases s.notifyWake target with no | ⟨task, found, identity, yes⟩
    · simp only [perform, wake, no, notifyWake_nextTid]
    · simp only [perform, wake, yes]
      exact notifyWake_nextTid s
  | register params => cases deed <;> cases fits
  | _ => rfl

theorem run_frame {s s' : Wheel} (h : s.run = some s') :
    s'.inner = s.inner ∧ s'.nextTid = s.nextTid := by
  unfold run at h
  split at h
  · cases h
    exact ⟨rfl, rfl⟩
  · cases h
    split
    · unfold visit
      split
      · exact ⟨rfl, rfl⟩
      · split <;> split <;> exact ⟨rfl, rfl⟩
    · unfold endBeat
      split
      · exact ⟨rfl, rfl⟩
      · exact ⟨rfl, rfl⟩
      · exact ⟨rfl, rfl⟩
      · dsimp only
        split <;> exact ⟨rfl, rfl⟩
  · cases h
    unfold pollLocal
    split
    · exact ⟨rfl, rfl⟩
    · split <;> exact ⟨rfl, rfl⟩
  · cases h
    unfold Wheel.remove
    split <;> exact ⟨rfl, rfl⟩
  · cases h
    exact ⟨rfl, rfl⟩
  · cases h
    exact ⟨rfl, rfl⟩
  · cases h

theorem running_some {s : Scripted} {tid : Tid} {body : Script} (h : s.running = some (tid, body)) :
    ∃ b key, s.wheel.pc = .polling b key tid ∧ s.bodies tid = some body := by
  unfold running at h
  split at h
  · rename_i b key tid' pc
    obtain ⟨body', found, same⟩ := Option.map_eq_some_iff.mp h
    cases same
    exact ⟨b, key, pc, found⟩
  · cases h

variable {s s' : Wheel} {b : Beat} {key : TaskKey} {tid : Tid}

theorem call_polling {c : Call} (pc : s.pc = .polling b key tid) (h : s.step (.call c) = some s') :
    s' = s.perform c := by
  simp only [Wheel.step, call, pc, Option.some.injEq] at h
  exact h.symm

/-- The end of a poll leaves the counters and the closures alone. -/
theorem done_frame {isReady : Bool} (pc : s.pc = .polling b key tid)
    (h : s.step (.done isReady) = some s') :
    s'.pc = (if isReady then .removing b key tid else .sweep b (key + 1)) ∧
      s'.beats = s.beats ∧ s'.nextTid = s.nextTid ∧ s'.inner = s.inner := by
  simp only [Wheel.step, done, pc] at h
  split at h
  · rename_i same inner
    cases same
    cases h
    exact ⟨rfl, rfl, rfl, rfl⟩
  · cases h

theorem dropped_frame (h : s.step .dropped = some s') :
    ∃ b key tid, s.pc = .dropping b key tid ∧ s'.pc = .sweep b (key + 1) ∧
      s'.beats = s.beats ∧ s'.nextTid = s.nextTid ∧ s'.inner = s.inner := by
  simp only [Wheel.step, dropped] at h
  split at h
  · rename_i b key tid pc inner
    cases h
    exact ⟨b, key, tid, pc, rfl, rfl, rfl, rfl⟩
  · cases h

end Frames

section Turns
variable {s t : Scripted} {e : Event}

/-- What a step of a scripted wheel can be. -/
inductive Turn (s : Scripted) (e : Event) (t : Scripted) : Prop
  | run (event : e = .run) (inner : t.wheel.inner = s.wheel.inner)
      (tids : t.wheel.nextTid = s.wheel.nextTid) (bodies : t.bodies = s.bodies)
  | dropped (b : Beat) (key : TaskKey) (tid : Tid) (event : e = .dropped)
      (pc : s.wheel.pc = .dropping b key tid) (pc' : t.wheel.pc = .sweep b (key + 1))
      (beats : t.wheel.beats = s.wheel.beats) (inner : t.wheel.inner = s.wheel.inner)
      (tids : t.wheel.nextTid = s.wheel.nextTid) (bodies : t.bodies = s.bodies)
  | act (b : Beat) (key : TaskKey) (tid : Tid) (deed : Deed) (rest : Script) (c : Call)
      (event : e = .call c) (fits : deed.fits c = true) (pc : s.wheel.pc = .polling b key tid)
      (pc' : t.wheel.pc = .polling b key tid) (beats : t.wheel.beats = s.wheel.beats)
      (inner : t.wheel.inner = s.wheel.inner) (tids : t.wheel.nextTid = s.wheel.nextTid)
      (body : s.bodies tid = some (.act deed rest))
      (bodies : t.bodies = Function.update s.bodies tid (some rest))
  | spawn (b : Beat) (key : TaskKey) (tid : Tid) (spawned rest : Script) (params : SpawnParams)
      (event : e = .call (.register params)) (pc : s.wheel.pc = .polling b key tid)
      (pc' : t.wheel.pc = .polling b key tid) (beats : t.wheel.beats = s.wheel.beats)
      (inner : t.wheel.inner = s.wheel.inner) (tids : t.wheel.nextTid = s.wheel.nextTid + 1)
      (body : s.bodies tid = some (.spawn spawned rest))
      (bodies : t.bodies = Function.update (Function.update s.bodies tid (some rest))
        s.wheel.nextTid (some spawned))
  | pending (b : Beat) (key : TaskKey) (tid : Tid) (rest : Script) (event : e = .done false)
      (pc : s.wheel.pc = .polling b key tid) (pc' : t.wheel.pc = .sweep b (key + 1))
      (beats : t.wheel.beats = s.wheel.beats) (inner : t.wheel.inner = s.wheel.inner)
      (tids : t.wheel.nextTid = s.wheel.nextTid) (body : s.bodies tid = some (.pending rest))
      (bodies : t.bodies = Function.update s.bodies tid (some rest))
  | ready (b : Beat) (key : TaskKey) (tid : Tid) (event : e = .done true)
      (pc : s.wheel.pc = .polling b key tid) (pc' : t.wheel.pc = .removing b key tid)
      (beats : t.wheel.beats = s.wheel.beats) (inner : t.wheel.inner = s.wheel.inner)
      (tids : t.wheel.nextTid = s.wheel.nextTid) (body : s.bodies tid = some .ready)
      (bodies : t.bodies = Function.update s.bodies tid none)

theorem take_some {bodies : Tid → Option Script} (h : s.take e bodies = some t) :
    s.wheel.step e = some t.wheel ∧ t.bodies = bodies := by
  obtain ⟨wheel, taken, rfl⟩ := Option.map_eq_some_iff.mp h
  exact ⟨taken, rfl⟩

/-- The call that the script makes, where it is registering or fits the deed. -/
theorem step_call {c : Call} (h : s.step (.call c) = some t) :
    s.wheel.step (.call c) = some t.wheel ∧ Turn s (.call c) t := by
  simp only [step] at h
  split at h
  · rename_i tid deed rest running
    obtain ⟨b, key, pc, body⟩ := running_some running
    split at h
    · rename_i fits
      obtain ⟨taken, bodies⟩ := take_some h
      have after := call_polling pc taken
      exact ⟨taken, .act b key tid deed rest c rfl fits pc (by rw [after, perform_pc, pc])
        (by rw [after, perform_beats]) (by rw [after, perform_inner])
        (by rw [after, perform_nextTid s.wheel fits]) body bodies⟩
    · cases h
  · rename_i tid spawned rest running
    obtain ⟨b, key, pc, body⟩ := running_some running
    split at h
    · rename_i params
      obtain ⟨taken, bodies⟩ := take_some h
      have after := call_polling pc taken
      exact ⟨taken, .spawn b key tid spawned rest params rfl pc (by rw [after, perform_pc, pc])
        (by rw [after, perform_beats]) (by rw [after, perform_inner]) (by rw [after]; rfl)
        body bodies⟩
    · cases h
  · cases h

theorem step_done {isReady : Bool} (h : s.step (.done isReady) = some t) :
    s.wheel.step (.done isReady) = some t.wheel ∧ Turn s (.done isReady) t := by
  simp only [step] at h
  split at h
  · rename_i tid rest running
    obtain ⟨b, key, pc, body⟩ := running_some running
    obtain ⟨taken, bodies⟩ := take_some h
    obtain ⟨pc', beats, tids, inner⟩ := done_frame pc taken
    exact ⟨taken, .pending b key tid rest rfl pc pc' beats inner tids body bodies⟩
  · rename_i tid running
    obtain ⟨b, key, pc, body⟩ := running_some running
    obtain ⟨taken, bodies⟩ := take_some h
    obtain ⟨pc', beats, tids, inner⟩ := done_frame pc taken
    exact ⟨taken, .ready b key tid rfl pc pc' beats inner tids body bodies⟩
  · cases h

theorem step_turn (h : s.step e = some t) : s.wheel.step e = some t.wheel ∧ Turn s e t := by
  cases e with
  | run =>
    obtain ⟨taken, bodies⟩ := take_some h
    obtain ⟨inner, tids⟩ := run_frame taken
    exact ⟨taken, .run rfl inner tids bodies⟩
  | dropped =>
    obtain ⟨taken, bodies⟩ := take_some h
    obtain ⟨b, key, tid, pc, pc', beats, tids, inner⟩ := dropped_frame taken
    exact ⟨taken, .dropped b key tid rfl pc pc' beats inner tids bodies⟩
  | call c => exact step_call h
  | done isReady => exact step_done h
  | _ => cases h

end Turns

/-- The key in hand past the head of the loop in `beat_once`. -/
def inHand : Pc → Option (Beat × TaskKey)
  | .sweep _ _ => none
  | pc => pc.cursor

/-- What holds along the steps of a scripted wheel. -/
structure Paced (s : Scripted) : Prop where
  con : Consistent s.wheel
  awake : s.wheel.pc ≠ .idle
  inner : s.wheel.inner = []
  inside : ∀ b key, inHand s.wheel.pc = some (b, key) → key < b.cap
  bodied : ∀ k task, s.wheel.get k = some task →
    (s.bodies task.tid).isSome = true ∨ ∃ b, s.wheel.pc = .removing b k task.tid

section Invariant
variable {s t : Scripted} {e : Event}

/-- The task being polled has its identity from before the next one to be handed out. -/
theorem Paced.small (paced : Paced s) {b : Beat} {key : TaskKey} {tid : Tid}
    (pc : s.wheel.pc = .polling b key tid) : tid < s.wheel.nextTid := by
  obtain ⟨task, present, identity⟩ := paced.con.subject key tid (by rw [pc]; rfl)
  exact identity ▸ paced.con.old key task present

/-- One task's share of what is left. -/
theorem sum_update (bodies : Tid → Option Script) {tid n : Nat} (small : tid < n)
    (body : Option Script) :
    ∑ i ∈ Finset.range n, stepsOf (Function.update bodies tid body) i + stepsOf bodies tid =
      ∑ i ∈ Finset.range n, stepsOf bodies i + body.elim 0 Script.steps := by
  have member := Finset.mem_range.mpr small
  have split := Finset.sum_update_of_mem member (stepsOf bodies) (body.elim 0 Script.steps)
  have whole := Finset.add_sum_erase (Finset.range n) (stepsOf bodies) member
  have same : stepsOf (Function.update bodies tid body) =
      Function.update (stepsOf bodies) tid (body.elim 0 Script.steps) := by
    funext i
    by_cases here : i = tid
    · rw [here, stepsOf, Function.update_self, Function.update_self]
    · rw [stepsOf, Function.update_of_ne here, Function.update_of_ne here, stepsOf]
  rw [same, split, Finset.sdiff_singleton_eq_erase]
  omega

/-- The same where the body of the task is known. -/
theorem sum_update_of {bodies : Tid → Option Script} {tid n : Nat} {script : Script}
    (small : tid < n) (here : bodies tid = some script) (body : Option Script) :
    ∑ i ∈ Finset.range n, stepsOf (Function.update bodies tid body) i + script.steps =
      ∑ i ∈ Finset.range n, stepsOf bodies i + body.elim 0 Script.steps := by
  have share := sum_update bodies small body
  rwa [stepsOf, here, Option.elim_some] at share

/-- A spawned body adds its steps to what is left. -/
theorem sum_spawn (bodies : Tid → Option Script) (n : Nat) (body : Script) :
    ∑ i ∈ Finset.range (n + 1), stepsOf (Function.update bodies n (some body)) i =
      ∑ i ∈ Finset.range n, stepsOf bodies i + body.steps := by
  rw [Finset.sum_range_succ, stepsOf, Function.update_self, Option.elim_some]
  congr 1
  refine Finset.sum_congr rfl (fun i member => ?_)
  rw [stepsOf, Function.update_of_ne (Nat.ne_of_lt (Finset.mem_range.mp member)), stepsOf]

/-- The end of a poll uses up a step of the script. -/
def spent : Event → Nat
  | .done _ => 1
  | _ => 0

theorem left_step (paced : Paced s) (h : s.step e = some t) : t.left + spent e = s.left := by
  unfold left
  cases (step_turn h).2 with
  | run event inner tids bodies => rw [tids, bodies, event]; rfl
  | dropped b key tid event pc pc' beats inner tids bodies => rw [tids, bodies, event]; rfl
  | act b key tid deed rest c event fits pc pc' beats inner tids body bodies =>
    have share := sum_update_of (paced.small pc) body (some rest)
    rw [tids, bodies, event]
    exact Nat.add_right_cancel share
  | spawn b key tid spawned rest params event pc pc' beats inner tids body bodies =>
    have share := sum_update_of (paced.small pc) body (some rest)
    rw [tids, bodies, event, sum_spawn]
    simp only [Script.steps, Option.elim_some, spent] at share ⊢
    omega
  | pending b key tid rest event pc pc' beats inner tids body bodies =>
    have share := sum_update_of (paced.small pc) body (some rest)
    rw [tids, bodies, event, spent]
    simp only [Script.steps, Option.elim_some] at share ⊢
    omega
  | ready b key tid event pc pc' beats inner tids body bodies =>
    rw [tids, bodies, event, spent]
    exact sum_update_of (paced.small pc) body none

theorem inside_run {s s' : Wheel} (inside : ∀ b key, inHand s.pc = some (b, key) → key < b.cap)
    (move : Move s .run s') (b : Beat) (key : TaskKey) (held : inHand s'.pc = some (b, key)) :
    key < b.cap := by
  cases move with
  | stay pc' beats quiet => exact absurd rfl quiet
  | leave v pc pc' beats quiet => exact absurd rfl quiet
  | choose b key task event pc below found reason runnable pc' beats =>
    rw [pc'] at held
    cases held
    exact below
  | condemn b key task event pc below found reason pc' beats =>
    rw [pc'] at held
    cases held
    exact below
  | ended b key event pc past ended beats =>
    generalize s'.pc = pc' at held ended
    cases ended <;> cases held
  | pollBegin b key tid event pc pc' beats =>
    rw [pc'] at held
    cases held
    exact inside b key (by rw [pc]; rfl)
  | removed b key tid tid' event pc pc' beats =>
    rw [pc'] at held
    cases held
    exact inside b key (by rw [pc]; rfl)
  | _ => simp_all [inHand, Pc.cursor]

theorem step_inside (paced : Paced s) (h : s.step e = some t) (b : Beat) (key : TaskKey)
    (held : inHand t.wheel.pc = some (b, key)) : key < b.cap := by
  obtain ⟨taken, turn⟩ := step_turn h
  -- a step inside of a poll, and the one that leads to the removal of its task
  have stays : ∀ {key' tid}, s.wheel.pc = .polling b key' tid → key' = key → key < b.cap :=
    fun pc same => paced.inside b key (by rw [pc, same]; rfl)
  cases turn with
  | run event =>
    subst event
    exact inside_run paced.inside (step_move paced.con.wf taken) b key held
  | dropped b' key' tid event pc pc' => rw [pc'] at held; cases held
  | act b' key' tid deed rest c event fits pc pc' =>
    rw [pc'] at held
    cases held
    exact stays pc rfl
  | spawn b' key' tid spawned rest params event pc pc' =>
    rw [pc'] at held
    cases held
    exact stays pc rfl
  | pending b' key' tid rest event pc pc' => rw [pc'] at held; cases held
  | ready b' key' tid event pc pc' =>
    rw [pc'] at held
    cases held
    exact stays pc rfl

theorem isSome_update {bodies : Tid → Option Script} {i tid : Tid} (body : Script)
    (some : (bodies i).isSome = true) :
    (Function.update bodies tid (Option.some body) i).isSome = true := by
  by_cases here : i = tid
  · rw [here, Function.update_self]
    rfl
  · rwa [Function.update_of_ne here]

/-- A body is given up where its task is about to be removed, and nowhere else. -/
theorem step_bodied (paced : Paced s) (h : s.step e = some t) (k : TaskKey) (task' : DynamicFuture)
    (found' : t.wheel.get k = some task') :
    (t.bodies task'.tid).isSome = true ∨ ∃ b, t.wheel.pc = .removing b k task'.tid := by
  obtain ⟨taken, turn⟩ := step_turn h
  have origin := ((step_change paced.con.wf taken).look k).origin found'
  -- in the middle of a poll every task that was there has its body
  have bodied : ∀ {b key tid}, s.wheel.pc = .polling b key tid →
      (∃ task, s.wheel.get k = some task ∧ task.tid = task'.tid) →
      (s.bodies task'.tid).isSome = true := by
    rintro b key tid pc ⟨task, found, identity⟩
    rcases paced.bodied k task found with some | ⟨b', pc'⟩
    · exact identity ▸ some
    · rw [pc] at pc'
      cases pc'
  have old : (∀ params, e ≠ .call (.register params)) →
      ∃ task, s.wheel.get k = some task ∧ task.tid = task'.tid := by
    intro unspawned
    rcases origin with old | ⟨params, spawned, rest⟩
    · exact old
    · exact absurd spawned (unspawned params)
  cases turn with
  | run event inner tids bodies =>
    subst event
    obtain ⟨task, found, identity⟩ := old nofun
    rcases paced.bodied k task found with some | ⟨b, pc⟩
    · exact .inl (by rw [bodies, ← identity]; exact some)
    · obtain ⟨gone, present, same, removed, count⟩ := remove_found paced.con pc taken
      exact absurd (removed.gone.symm.trans found') nofun
  | dropped b key tid event pc pc' beats inner tids bodies =>
    subst event
    obtain ⟨task, found, identity⟩ := old nofun
    rcases paced.bodied k task found with some | ⟨b', pc'⟩
    · exact .inl (by rw [bodies, ← identity]; exact some)
    · rw [pc] at pc'
      cases pc'
  | act b key tid deed rest c event fits pc pc' beats inner tids body bodies =>
    subst event
    left
    rw [bodies]
    refine isSome_update rest (bodied pc (old ?_))
    rintro params ⟨⟩
    cases deed <;> cases fits
  | spawn b key tid spawned rest params event pc pc' beats inner tids body bodies =>
    left
    rw [bodies]
    rcases origin with old | ⟨params', register, fresh, answer, value, tids'⟩
    · exact isSome_update spawned (isSome_update rest (bodied pc old))
    · have new : task'.tid = s.wheel.nextTid := by rw [value]; rfl
      rw [new, Function.update_self]
      rfl
  | pending b key tid rest event pc pc' beats inner tids body bodies =>
    subst event
    left
    rw [bodies]
    exact isSome_update rest (bodied pc (old nofun))
  | ready b key tid event pc pc' beats inner tids body bodies =>
    subst event
    obtain ⟨task, found, same⟩ := old nofun
    by_cases here : task'.tid = tid
    · obtain ⟨polled, present, identity⟩ := paced.con.subject key tid (by rw [pc]; rfl)
      have place : k = key :=
        paced.con.unique k key task polled found present (by rw [same, here, identity])
      exact .inr ⟨b, by rw [pc', place, here]⟩
    · left
      rw [bodies, Function.update_of_ne here]
      exact bodied pc ⟨task, found, same⟩

theorem awake_run {s s' : Wheel} (con : Consistent s) (move : Move s .run s') :
    s'.pc ≠ .idle := by
  intro asleep
  cases move with
  | stay pc' beats quiet => exact quiet rfl
  | leave v pc pc' beats quiet => exact quiet rfl
  | ended b key event pc past ended beats => rw [asleep] at ended; cases ended
  | broken event lost pc' beats => exact con.unbroken lost
  | _ => simp_all

theorem step_awake (paced : Paced s) (h : s.step e = some t) : t.wheel.pc ≠ .idle := by
  obtain ⟨taken, turn⟩ := step_turn h
  cases turn with
  | run event =>
    subst event
    exact awake_run paced.con (step_move paced.con.wf taken)
  | dropped b key tid event pc pc' => rw [pc']; exact nofun
  | act b key tid deed rest c event fits pc pc' => rw [pc']; exact nofun
  | spawn b key tid spawned rest params event pc pc' => rw [pc']; exact nofun
  | pending b key tid rest event pc pc' => rw [pc']; exact nofun
  | ready b key tid event pc pc' => rw [pc']; exact nofun

theorem step_paced (paced : Paced s) (h : s.step e = some t) : Paced t where
  con := step_consistent paced.con (step_turn h).1
  awake := step_awake paced h
  inner := by cases (step_turn h).2 <;> simp_all [paced.inner]
  inside := step_inside paced h
  bodied := step_bodied paced h

end Invariant

section Budget

/-- The calls of `beat_once` that can follow the one running, with `n` steps left. -/
def Beat.due (b : Beat) (n : Nat) : Nat :=
  if b.anyPoll then 2 * n + 2 else if b.second then 2 * n else 2 * n + 1

/-- The same from any point of `poll_internal` on. A poll that has begun is still to be paid. -/
def due (n : Nat) : Pc → Nat
  | .clear => 2 * n + 2
  | .register => 2 * n + 1
  | .sweep b _ => Beat.due b n
  | .chosen b _ _ => Beat.due b n
  | .polling _ _ _ => 2 * n
  | .removing b _ _ => Beat.due b n
  | .dropping b _ _ => Beat.due b n
  | _ => 0

variable {s t : Scripted} {e : Event}

theorem due_run {s s' : Wheel} (con : Consistent s) (move : Move s .run s') (n : Nat) :
    s'.beats + due n s'.pc ≤ s.beats + due n s.pc := by
  cases move with
  | stay pc' beats quiet => exact absurd rfl quiet
  | leave v pc pc' beats quiet => exact absurd rfl quiet
  | begins second event begins pc' beats =>
    rw [pc', beats]
    cases begins with
    | clear pc => simp [pc, due, Beat.due]; omega
    | register pc => simp [pc, due, Beat.due]; omega
    | again b key pc past first busy => simp [pc, due, Beat.due, busy]; omega
  | skip b key event pc inside rest pc' beats => rw [pc', pc, beats]; exact Nat.le_refl _
  | choose b key task event pc inside found reason runnable pc' beats =>
    rw [pc', pc, beats]
    exact Nat.le_refl _
  | condemn b key task event pc inside found reason pc' beats =>
    rw [pc', pc, beats]
    exact Nat.le_refl _
  | ended b key event pc past ended beats =>
    rw [pc, beats]
    generalize s'.pc = pc' at ended
    cases ended with
    | register first quiet => simp [due, Beat.due, first, quiet]
    | clear second busy => simp [due, Beat.due, busy]
    | finish second quiet sleeps => simp [due]
    | pending second quiet waits => simp [due]
  | pollBegin b key tid event pc pc' beats =>
    rw [pc', pc, beats]
    simp only [due, Beat.due]
    split <;> [skip; split] <;> omega
  | removed b key tid tid' event pc pc' beats => rw [pc', pc, beats]; exact Nat.le_refl _
  | answer finished event pc pc' beats => rw [pc', pc, beats]; exact Nat.le_refl _
  | broken event lost pc' beats => exact (con.unbroken lost).elim
  | _ => simp_all

/-- No step of a scripted wheel raises the beats done and the beats to come together. -/
theorem due_step (paced : Paced s) (h : s.step e = some t) :
    t.wheel.beats + due t.left t.wheel.pc ≤ s.wheel.beats + due s.left s.wheel.pc := by
  obtain ⟨taken, turn⟩ := step_turn h
  have left := left_step paced h
  cases turn with
  | run event =>
    subst event
    rw [← left]
    exact due_run paced.con (step_move paced.con.wf taken) t.left
  | dropped b key tid event pc pc' beats =>
    subst event
    rw [pc, pc', beats, ← left]
    exact Nat.le_refl _
  | act b key tid deed rest c event fits pc pc' beats =>
    subst event
    rw [pc, pc', beats, ← left]
    exact Nat.le_refl _
  | spawn b key tid spawned rest params event pc pc' beats =>
    subst event
    rw [pc, pc', beats, ← left]
    exact Nat.le_refl _
  | pending b key tid rest event pc pc' beats =>
    subst event
    rw [pc, pc', beats, ← left, spent]
    simp only [due, Beat.due]
    split <;> [skip; split] <;> omega
  | ready b key tid event pc pc' beats =>
    subst event
    rw [pc, pc', beats, ← left, spent]
    simp only [due, Beat.due]
    split <;> [skip; split] <;> omega

end Budget

section Measure

/-- The order of the phases of an iteration in which no poll begins. -/
def rank : Pc → Nat
  | .clear => 4
  | .register => 2
  | .polling _ _ _ => 5
  | .sweep b _ => beatRank b
  | .chosen b _ _ => beatRank b
  | .removing b _ _ => beatRank b
  | .dropping b _ _ => beatRank b
  | _ => 0
where
  beatRank (b : Beat) : Nat := if b.anyPoll then 5 else if b.second then 1 else 3

/-- The keys of the sweep that are still to come. -/
def ahead (pc : Pc) : Nat :=
  match pc.cursor with
  | some (b, key) => b.cap - key
  | none => 0

/-- The steps at one key, with the calls that the poll is still to make. -/
def stage (s : Scripted) : Nat :=
  match s.wheel.pc with
  | .sweep _ _ => 4
  | .chosen _ _ _ => 3
  | .polling _ _ tid => 3 + (s.bodies tid).elim 0 Script.acts
  | .removing _ _ _ => 2
  | .dropping _ _ _ => 1
  | .finish _ => 1
  | _ => 0

/-- The steps of polls that have not begun. -/
def unbegun (s : Scripted) : Nat :=
  match s.wheel.pc with
  | .polling _ _ _ => s.left - 1
  | _ => s.left

def measure (s : Scripted) : Nat × Nat × Nat × Nat :=
  (s.unbegun, rank s.wheel.pc, ahead s.wheel.pc, s.stage)

abbrev Lower : Nat × Nat × Nat × Nat → Nat × Nat × Nat × Nat → Prop :=
  Prod.Lex (· < ·) (Prod.Lex (· < ·) (Prod.Lex (· < ·) (· < ·)))

theorem lower_wf : WellFounded Lower :=
  Nat.lt_wfRel.wf.prod_lex (Nat.lt_wfRel.wf.prod_lex (Nat.lt_wfRel.wf.prod_lex Nat.lt_wfRel.wf))

theorem lower_of {a b c d a' b' c' d' : Nat}
    (h : a' < a ∨ a' = a ∧ (b' < b ∨ b' = b ∧ (c' < c ∨ c' = c ∧ d' < d))) :
    Lower (a', b', c', d') (a, b, c, d) := by
  rcases h with h | ⟨rfl, h | ⟨rfl, h | ⟨rfl, h⟩⟩⟩
  · exact .left _ _ h
  · exact .right _ (.left _ _ h)
  · exact .right _ (.right _ (.left _ _ h))
  · exact .right _ (.right _ (.right _ h))

variable {s t : Scripted} {e : Event}

/-- The task being polled has a step left: the one that it is in. -/
theorem left_pos (paced : Paced s) {b : Beat} {key : TaskKey} {tid : Tid}
    (pc : s.wheel.pc = .chosen b key tid) : 0 < s.left := by
  obtain ⟨task, present, identity⟩ := paced.con.subject key tid (by rw [pc]; rfl)
  rcases paced.bodied key task present with some | ⟨b', pc'⟩
  · obtain ⟨body, here⟩ := Option.isSome_iff_exists.mp some
    have member := Finset.mem_range.mpr (paced.con.old key task present)
    refine Nat.lt_of_lt_of_le ?_ (Finset.single_le_sum (fun i _ => Nat.zero_le _) member)
    rw [stepsOf, here]
    exact body.steps_pos
  · rw [pc] at pc'
    cases pc'

theorem lower_run (paced : Paced s) (left : t.left = s.left)
    (move : Move s.wheel .run t.wheel) : Lower t.measure s.measure := by
  apply lower_of
  cases move with
  | stay pc' beats quiet => exact absurd rfl quiet
  | leave v pc pc' beats quiet => exact absurd rfl quiet
  | begins second event begins pc' beats =>
    cases begins with
    | clear pc =>
      refine .inr ⟨by simp only [unbegun, pc, pc', left], .inl ?_⟩
      simp [rank, rank.beatRank, pc, pc']
    | register pc =>
      refine .inr ⟨by simp only [unbegun, pc, pc', left], .inl ?_⟩
      simp [rank, rank.beatRank, pc, pc']
    | again b key pc past first busy =>
      refine .inr ⟨by simp only [unbegun, pc, pc', left], .inl ?_⟩
      simp [rank, rank.beatRank, pc, pc', busy]
  | skip b key event pc inside rest pc' beats =>
    refine .inr ⟨by simp only [unbegun, pc, pc', left], .inr ⟨by rw [pc, pc']; rfl, .inl ?_⟩⟩
    rw [pc, pc']
    exact Nat.sub_succ_lt_self b.cap key inside
  | choose b key task event pc inside found reason runnable pc' beats =>
    refine .inr ⟨by simp only [unbegun, pc, pc', left], .inr ⟨by rw [pc, pc']; rfl, .inr ?_⟩⟩
    exact ⟨by rw [pc, pc']; rfl, by simp only [stage, pc, pc']; decide⟩
  | condemn b key task event pc inside found reason pc' beats =>
    refine .inr ⟨by simp only [unbegun, pc, pc', left], .inr ⟨by rw [pc, pc']; rfl, .inr ?_⟩⟩
    exact ⟨by rw [pc, pc']; rfl, by simp only [stage, pc, pc']; decide⟩
  | ended b key event pc past ended beats =>
    generalize hpc : t.wheel.pc = pc' at ended
    cases ended with
    | register first quiet =>
      refine .inr ⟨by simp only [unbegun, pc, hpc, left], .inl ?_⟩
      simp [rank, rank.beatRank, pc, first, quiet]
    | clear second busy =>
      refine .inr ⟨by simp only [unbegun, pc, hpc, left], .inl ?_⟩
      simp [rank, rank.beatRank, pc, busy]
    | finish second quiet sleeps =>
      refine .inr ⟨by simp only [unbegun, pc, hpc, left], .inl ?_⟩
      simp [rank, rank.beatRank, pc, second, quiet]
    | pending second quiet waits =>
      refine .inr ⟨by simp only [unbegun, pc, hpc, left], .inl ?_⟩
      simp [rank, rank.beatRank, pc, second, quiet]
  | pollBegin b key tid event pc pc' beats =>
    left
    simp only [unbegun, pc, pc', left]
    exact Nat.sub_one_lt_of_lt (left_pos paced pc)
  | removed b key tid tid' event pc pc' beats =>
    refine .inr ⟨by simp only [unbegun, pc, pc', left], .inr ⟨by rw [pc, pc']; rfl, .inr ?_⟩⟩
    exact ⟨by rw [pc, pc']; rfl, by simp only [stage, pc, pc']; decide⟩
  | answer finished event pc pc' beats =>
    refine .inr ⟨by simp only [unbegun, pc, pc', left], .inr ⟨by rw [pc, pc']; rfl, .inr ?_⟩⟩
    exact ⟨by rw [pc, pc']; rfl, by simp only [stage, pc, pc']; decide⟩
  | broken event lost pc' beats => exact (paced.con.unbroken lost).elim
  | _ => simp_all

/-- Every phase of a sweep comes no later than its polls. -/
theorem beatRank_le (b : Beat) : rank.beatRank b ≤ 5 := by
  unfold rank.beatRank
  split <;> [skip; split] <;> decide

theorem lower_step (paced : Paced s) (h : s.step e = some t) : Lower t.measure s.measure := by
  obtain ⟨taken, turn⟩ := step_turn h
  have left := left_step paced h
  cases turn with
  | run event =>
    subst event
    exact lower_run paced left (step_move paced.con.wf taken)
  | dropped b key tid event pc pc' beats =>
    subst event
    have below := paced.inside b key (by rw [pc]; rfl)
    apply lower_of
    refine .inr ⟨by simp only [unbegun, pc, pc', ← left]; rfl, .inr ⟨by rw [pc, pc']; rfl, .inl ?_⟩⟩
    rw [pc, pc']
    exact Nat.sub_succ_lt_self b.cap key below
  | act b key tid deed rest c event fits pc pc' beats inner tids body bodies =>
    subst event
    apply lower_of
    refine .inr ⟨by simp only [unbegun, pc, pc', ← left]; rfl, .inr ⟨by rw [pc, pc'], .inr ?_⟩⟩
    refine ⟨by rw [pc, pc'], ?_⟩
    simp [stage, pc, pc', bodies, body, Script.acts]
  | spawn b key tid spawned rest params event pc pc' beats inner tids body bodies =>
    subst event
    have older : tid ≠ s.wheel.nextTid := Nat.ne_of_lt (paced.small pc)
    apply lower_of
    refine .inr ⟨by simp only [unbegun, pc, pc', ← left]; rfl, .inr ⟨by rw [pc, pc'], .inr ?_⟩⟩
    refine ⟨by rw [pc, pc'], ?_⟩
    simp [stage, pc, pc', bodies, body, Script.acts, older]
  | pending b key tid rest event pc pc' beats =>
    subst event
    have below := paced.inside b key (by rw [pc]; rfl)
    have ranks := Nat.lt_or_eq_of_le (beatRank_le b)
    apply lower_of
    refine .inr ⟨by simp only [unbegun, pc, pc', ← left]; rfl, ?_⟩
    rw [pc, pc']
    exact ranks.imp id fun same => ⟨same, .inl (Nat.sub_succ_lt_self b.cap key below)⟩
  | ready b key tid event pc pc' beats inner tids body bodies =>
    subst event
    have ranks := Nat.lt_or_eq_of_le (beatRank_le b)
    apply lower_of
    refine .inr ⟨by simp only [unbegun, pc, pc', ← left]; rfl, ?_⟩
    refine ranks.imp (fun lower => by rwa [pc, pc']) fun same => ⟨by rwa [pc, pc'], .inr ?_⟩
    exact ⟨by rw [pc, pc']; rfl, by simp only [stage, pc, pc']; omega⟩

end Measure

section Termination
variable {s t : Scripted}

/-- A call that fits a deed. -/
def Deed.call : Deed → Call
  | .wake => .wake ⟨0, 0⟩
  | .suspend => .suspend 0
  | .resume => .resume 0
  | .cancel => .cancel 0

theorem take_isSome {e : Event} {bodies : Tid → Option Script}
    (enabled : (s.wheel.step e).isSome = true) : (s.take e bodies).isSome = true := by
  rw [take, Option.isSome_map]
  exact enabled

/-- The script of the task being polled says how the poll goes on. -/
theorem polling_goes_on (paced : Paced s) {b : Beat} {key : TaskKey} {tid : Tid}
    (pc : s.wheel.pc = .polling b key tid) : ∃ e, (s.step e).isSome = true := by
  obtain ⟨task, present, identity⟩ := paced.con.subject key tid (by rw [pc]; rfl)
  have some : (s.bodies tid).isSome = true := by
    rcases paced.bodied key task present with some | ⟨b', pc'⟩
    · exact identity ▸ some
    · rw [pc] at pc'
      cases pc'
  obtain ⟨body, here⟩ := Option.isSome_iff_exists.mp some
  have running : s.running = Option.some (tid, body) := by
    simp only [Scripted.running, pc, here, Option.map_some]
  have calls : ∀ c, (s.wheel.step (.call c)).isSome = true := by
    intro c
    simp only [Wheel.step, call, pc, Option.isSome_some]
  have returns : ∀ r, (s.wheel.step (.done r)).isSome = true := by
    intro r
    simp only [Wheel.step, done, pc, paced.inner, Option.isSome_some]
  cases body with
  | ready =>
    refine ⟨.done true, ?_⟩
    simp only [step, running]
    exact take_isSome (returns true)
  | pending rest =>
    refine ⟨.done false, ?_⟩
    simp only [step, running]
    exact take_isSome (returns false)
  | act deed rest =>
    have fits : deed.fits (Deed.call deed) = true := by cases deed <;> rfl
    refine ⟨.call (Deed.call deed), ?_⟩
    simp only [step, running, fits, if_true]
    exact take_isSome (calls (Deed.call deed))
  | spawn body rest =>
    refine ⟨.call (.register ⟨false, .none⟩), ?_⟩
    simp only [step, running]
    exact take_isSome (calls _)

/-- Until `poll_internal` has returned there is a next step. -/
theorem goes_on (paced : Paced s) :
    (∃ v, s.wheel.pc = .returned v) ∨ ∃ e, (s.step e).isSome = true := by
  have own : (s.wheel.step .run).isSome = true → ∃ e, (s.step e).isSome = true :=
    fun enabled => ⟨.run, take_isSome enabled⟩
  cases pc : s.wheel.pc with
  | idle => exact absurd pc paced.awake
  | returned v => exact .inl ⟨v, rfl⟩
  | polling b key tid => exact .inr (polling_goes_on paced pc)
  | dropping b key tid =>
    refine .inr ⟨.dropped, take_isSome ?_⟩
    simp only [Wheel.step, dropped, pc, paced.inner, Option.isSome_some]
  | _ => exact .inr (own (by simp only [Wheel.step, Wheel.run, pc, Option.isSome_some]))

theorem poll_frame {s s' : Wheel} {w : Waker} (called : s.step (.poll w) = some s') :
    s'.pc = .clear ∧ s'.beats = s.beats := by
  simp only [Wheel.step, poll] at called
  split at called
  · cases called
    exact ⟨rfl, rfl⟩
  · cases called
    exact ⟨rfl, rfl⟩
  · cases called

theorem load_paced {s : Wheel} (reach : Reachable Wheel.step (fun s => s = new) s)
    (pc : s.pc = .clear) (body : Tid → Script) : Paced (load s body) where
  con := reachable_consistent reach
  awake := by
    change s.pc ≠ .idle
    rw [pc]
    exact nofun
  inner := (reachable_kept reach).lending.closed (by rw [pc]; rfl)
  inside b key held := by
    change inHand s.pc = _ at held
    rw [pc] at held
    cases held
  bodied k task found := by
    have listed := (ChunkSlab.mem_iter (reachable_consistent reach).wf k task).mpr found
    have known : s.slab.iter.any (fun e => e.2.tid == task.tid) = true :=
      List.any_eq_true.mpr ⟨(k, task), listed, beq_self_eq_true task.tid⟩
    left
    simp only [load, known, if_true, Option.isSome_some]

/-- Every call of `poll_internal` on a wheel whose tasks are finite scripts returns. It
makes at most two sweeps for each step the scripts have left, and two more. -/
theorem poll_terminates {s s' : Wheel} {w : Waker}
    (reach : Reachable Wheel.step (fun s => s = new) s) (called : s.step (.poll w) = some s')
    (body : Tid → Script) :
    Terminates step (load s' body) ∧
      ∀ es t, exec step (load s' body) es = some t →
        t.wheel.beats ≤ s.beats + (2 * (load s' body).left + 2) ∧
        ((∃ v, t.wheel.pc = .returned v) ∨ ∃ e, (t.step e).isSome = true) := by
  obtain ⟨pc, beats⟩ := poll_frame called
  have start := load_paced (reach.next called) pc body
  refine ⟨terminates_of_measure lower_wf measure
    (fun s e t paced h => ⟨step_paced paced h, lower_step paced h⟩) start, fun es t run => ?_⟩
  let Within (u : Scripted) : Prop :=
    Paced u ∧ u.wheel.beats + due u.left u.wheel.pc ≤ s.beats + (2 * (load s' body).left + 2)
  have first : Within (load s' body) := by
    refine ⟨start, ?_⟩
    change s'.beats + due _ s'.pc ≤ _
    rw [pc, beats]
    exact Nat.le_refl _
  have kept : Within t :=
    invariant_run (fun u e v inv h => ⟨step_paced inv.1 h, (due_step inv.1 h).trans inv.2⟩) first run
  exact ⟨(Nat.le_add_right _ _).trans kept.2, goes_on kept.1⟩

/-- The first of two tasks wakes itself and spawns a third one before it first returns. -/
def spawning : Tid → Script
  | 0 => .act .wake (.spawn (.pending .ready) (.pending .ready))
  | _ => .pending (.act .cancel .ready)

def pair : List Event := [.call (.register ⟨false, .none⟩), .call (.register ⟨false, .none⟩)]

theorem poll_terminates_spawning : ∃ s s', exec Wheel.step new pair = some s ∧
    s.step (.poll 7) = some s' ∧ (load s' spawning).left = 6 ∧ s.beats = 0 ∧
    Terminates step (load s' spawning) ∧
    ∀ es t, exec step (load s' spawning) es = some t →
      t.wheel.beats ≤ s.beats + (2 * (load s' spawning).left + 2) := by
  have run : exec Wheel.step new pair = some (last Wheel.step new pair) :=
    exec_last (by decide +kernel)
  have called : (last Wheel.step new pair).step (.poll 7) =
      some (last Wheel.step (last Wheel.step new pair) [.poll 7]) := step_last (by decide +kernel)
  have terminates := poll_terminates ⟨_, _, rfl, run⟩ called spawning
  exact ⟨_, _, run, called, by decide +kernel, by decide +kernel, terminates.1,
    fun es t steps => (terminates.2 es t steps).1⟩

end Termination
end Scripted
end Juggle.Dy
