import Juggle.Lib.Schedule
import Juggle.St.Counts
import Juggle.Utils.Yield
import Mathlib.Logic.Function.Basic

/-! `block_on` of `block.rs` on a static wheel whose tasks are async blocks that only yield.
The first poll of the wheel runs all of them to their ends, in turns. -/
namespace Juggle.St
open Juggle.Utils Juggle.Runs Juggle.Count Juggle.Turns

/-- A thread in `block_on`. `program` has the async blocks of the tasks and `futures` what is
left of those in progress. `polled` lists the polls of tasks so far, and `pendings` counts
the calls of `on_pending`. -/
structure BlockOn where
  wheel : Wheel
  waker : Waker
  program : TaskKey → Script
  futures : TaskKey → Script
  polled : List TaskKey
  pendings : Nat

namespace BlockOn

def start (wheel : Wheel) (waker : Waker) (program : TaskKey → Script) : BlockOn where
  wheel := wheel
  waker := waker
  program := program
  futures _ := []
  polled := []
  pendings := 0

def act (m : BlockOn) (e : Event) : Option BlockOn :=
  (m.wheel.step e).map fun w => { m with wheel := w }

/-- The async block of a task is polled. When it is not ready it has woken its task. -/
def pollFuture (m : BlockOn) (key : TaskKey) : Option BlockOn :=
  let (isReady, future) := (m.futures key).poll
  let m := { m with
    futures := Function.update m.futures key future
    polled := m.polled ++ [key] }
  if isReady then m.act (.done true) else (m.act (.wake key)).bind fun m => m.act (.done false)

/-- What happens next; the loop of `block_on` ends with the answer Ready. -/
def step (m : BlockOn) (_ : Unit) : Option BlockOn :=
  match m.wheel.pc with
  | .idle => m.act (.poll m.waker)
  | .returned .pending => { m with pendings := m.pendings + 1 }.act (.poll m.waker)
  | .returned (.ready _) => none
  | .inTask _ key (.poll _) => m.pollFuture key
  | .inTask _ key .init =>
    { m with futures := Function.update m.futures key (m.program key) }.act .created
  | .inTask _ _ _ => m.act .dropped
  | _ => m.act .run

def Reaches (m m' : BlockOn) : Prop := ∃ n, exec step m (List.replicate n ()) = some m'

/-- What is left of the async block of a task, if it is still to be polled. -/
def future (m : BlockOn) (t : StaticFuture) (k : TaskKey) : Option Script :=
  match t.stopReason, t.flag with
  | .none, .uninit => some (m.program k)
  | .none, .created _ => some (m.futures k)
  | _, _ => none

/-- How often a task is still to be polled. -/
def need (m : BlockOn) (k : TaskKey) : Nat :=
  match (m.wheel.get k).bind fun t => m.future t k with
  | some script => script.pendings + 1
  | none => 0

/-- Between two visits a task is ready to be polled, or it never will be. -/
inductive Rests (t : StaticFuture) : Prop where
  | ready (reason : t.stopReason = .none) (start : t.startSuspended = false)
      (runnable : t.runnable = true) (free : t.polling = false) (flag : t.flag ≠ .dropped)
  | finished (reason : t.stopReason = .finished) (start : t.startSuspended = false)
  | suspended (reason : t.stopReason = .suspended) (start : t.startSuspended = true)

/-- What `beat_once` writes to a task that was ready. -/
def finish (t : StaticFuture) : StaticFuture := (t.setStopReason .finished).setEnded true

def going (t : StaticFuture) : Bool := decide (t.stopReason ≠ .finished)

structure Resting (m : BlockOn) : Prop where
  tasks : ∀ k t, m.wheel.get k = some t → Rests t
  unfinished : m.wheel.alg.unfinishedCount = m.wheel.tasks.countP going
  suspended : m.wheel.alg.suspendedCount = m.wheel.tasks.countP StaticFuture.startSuspended

/-- From one rest to another these tasks have had a turn each. -/
structure Turned (m m' : BlockOn) (taken : List TaskKey) : Prop where
  reaches : Reaches m m'
  resting : Resting m'
  polled : m'.polled = m.polled ++ taken
  need : ∀ k, m'.need k = m.need k - taken.count k
  pendings : m'.pendings = m.pendings
  starts : m'.wheel.tasks.map StaticFuture.startSuspended =
    m.wheel.tasks.map StaticFuture.startSuspended

section Runs
variable {m m' m'' : BlockOn}

theorem Reaches.refl (m : BlockOn) : Reaches m m := ⟨0, rfl⟩

theorem Reaches.one (taken : m.step () = some m') : Reaches m m' := ⟨1, by simp [exec, taken]⟩

theorem Reaches.trans (first : Reaches m m') (second : Reaches m' m'') : Reaches m m'' := by
  obtain ⟨n, before⟩ := first
  obtain ⟨n', after⟩ := second
  exact ⟨n + n', by rw [← List.replicate_append_replicate]; exact exec_append before after⟩

theorem Reaches.then (first : Reaches m m') (taken : m'.step () = some m'') : Reaches m m'' :=
  first.trans (.one taken)

theorem Turned.refl (resting : Resting m) : Turned m m [] where
  reaches := .refl m
  resting := resting
  polled := (List.append_nil _).symm
  need _ := rfl
  pendings := rfl
  starts := rfl

theorem Turned.trans {taken taken' : List TaskKey} (first : Turned m m' taken)
    (second : Turned m' m'' taken') : Turned m m'' (taken ++ taken') where
  reaches := first.reaches.trans second.reaches
  resting := second.resting
  polled := by rw [second.polled, first.polled, List.append_assoc]
  need k := by rw [second.need, first.need, List.count_append, Nat.sub_sub]
  pendings := second.pendings.trans first.pendings
  starts := second.starts.trans first.starts

theorem Turned.length {taken : List TaskKey} (turned : Turned m m' taken) :
    m'.wheel.tasks.length = m.wheel.tasks.length := by
  simpa using congrArg List.length turned.starts

end Runs

/-! The steps of the wheel, one after the other, from the head of the loop in `beat_once` to
the next head. -/

/-- A stretch of a visit: only the task at hand is written to. -/
structure Touched (s s' : Wheel) (key : TaskKey) (f : StaticFuture → StaticFuture) (pc : Pc) :
    Prop where
  tasks : s'.tasks = s.tasks.modify key f
  unfinished : s'.alg.unfinishedCount = s.alg.unfinishedCount
  suspended : s'.alg.suspendedCount = s.alg.suspendedCount
  pc' : s'.pc = pc
  start : ∀ t, (f t).startSuspended = t.startSuspended

theorem Touched.trans {s s' s'' : Wheel} {key : TaskKey} {f g : StaticFuture → StaticFuture}
    {pc pc' : Pc} (first : Touched s s' key f pc) (second : Touched s' s'' key g pc') :
    Touched s s'' key (g ∘ f) pc' where
  tasks := by rw [second.tasks, first.tasks, List.modify_modify_eq]
  unfinished := second.unfinished.trans first.unfinished
  suspended := second.suspended.trans first.suspended
  pc' := second.pc'
  start t := (second.start (f t)).trans (first.start t)

theorem goto_touched (s : Wheel) (key : TaskKey) (pc : Pc) : Touched s (s.goto pc) key id pc where
  tasks := (List.modify_id ..).symm
  unfinished := rfl
  suspended := rfl
  pc' := rfl
  start _ := rfl

theorem get_of_tasks {s s' : Wheel} {key : TaskKey} {f : StaticFuture → StaticFuture}
    {t : StaticFuture} (tasks : s'.tasks = s.tasks.modify key f) (found : s.get key = some t) :
    s'.get key = some (f t) := by
  rcases Wheel.get_of_modify tasks found with ⟨_, here⟩ | ⟨away, _⟩
  · exact here
  · exact absurd rfl away

theorem leave_touched (s : Wheel) (c : Caller) (key : TaskKey) (isReady : Bool) :
    Touched s (s.leave c key isReady) key (StaticFuture.setPolling false) (.back c key isReady) := by
  unfold Wheel.leave
  cases c <;> exact ⟨rfl, rfl, rfl, rfl, fun _ => rfl⟩

theorem pollLocal_touched {s : Wheel} {key : TaskKey} {t : StaticFuture} (b : Beat)
    (found : s.get key = some t) (free : t.polling = false) (flag : t.flag ≠ .dropped) :
    ∃ stage, Touched s (s.pollLocal b key false) key
        (fun t' => ((t'.setRunnable false).setPolling true).setFlag t.flag)
        (.inTask (.pollLocal { b with anyPoll := true } false) key stage) ∧
      ((t.flag = .uninit ∧ stage = .init) ∨ ∃ v, t.flag = .created v ∧ stage = .poll v) := by
  have found' : ((s.setCurrent (some key)).update key (StaticFuture.setRunnable false)).get key =
      some (t.setRunnable false) := by
    rw [Wheel.get_update_self]
    exact congrArg _ found
  have free' : (t.setRunnable false).polling = false := free
  have flag' : (t.setRunnable false).flag = t.flag := rfl
  have writes : ∀ f, ((s.setCurrent (some key)).update key (StaticFuture.setRunnable false)).tasks.modify
      key (fun t => (t.setPolling true).setFlag f) =
      s.tasks.modify key (fun t' => ((t'.setRunnable false).setPolling true).setFlag f) :=
    fun f => List.modify_modify_eq _ _ _ _
  unfold Wheel.pollLocal Wheel.pollProtected
  simp only [found', free', flag', Bool.false_eq_true, if_false]
  cases value : t.flag with
  | uninit => exact ⟨.init, ⟨writes _, rfl, rfl, rfl, fun _ => rfl⟩, .inl ⟨rfl, rfl⟩⟩
  | created v => exact ⟨.poll v, ⟨writes _, rfl, rfl, rfl, fun _ => rfl⟩, .inr ⟨v, rfl, rfl⟩⟩
  | dropped => exact absurd value flag

theorem created_touched {s : Wheel} {c : Caller} {key : TaskKey} (pc : s.pc = .inTask c key .init) :
    ∃ s', s.step .created = some s' ∧
      Touched s s' key (StaticFuture.setFlag (.created s.nextFuture))
        (.inTask c key (.poll s.nextFuture)) := by
  simp only [Wheel.step, Wheel.created, pc]
  exact ⟨_, rfl, rfl, rfl, rfl, rfl, fun _ => rfl⟩

theorem done_touched {s : Wheel} {c : Caller} {key : TaskKey} {v : FutureId}
    (pc : s.pc = .inTask c key (.poll v)) : ∃ s', s.step (.done true) = some s' ∧
      Touched s s' key (StaticFuture.setFlag .dropped) (.inTask c key (.dropDone v)) := by
  simp only [Wheel.step, Wheel.done, pc]
  exact ⟨_, rfl, rfl, rfl, rfl, rfl, fun _ => rfl⟩

theorem dropped_touched {s : Wheel} {c : Caller} {key : TaskKey} {v : FutureId}
    (pc : s.pc = .inTask c key (.dropDone v)) : ∃ s', s.step .dropped = some s' ∧
      Touched s s' key (StaticFuture.setPolling false) (.back c key true) := by
  simp only [Wheel.step, Wheel.dropped, pc]
  exact ⟨_, rfl, leave_touched s c key true⟩

theorem wake_touched {s : Wheel} {c : Caller} {key : TaskKey} {v : FutureId}
    (pc : s.pc = .inTask c key (.poll v)) : ∃ s', s.step (.wake key) = some s' ∧
      Touched s s' key (StaticFuture.setRunnable true) (.inTask c key (.poll v)) := by
  have code : s.userCode = true := by simp [Wheel.userCode, pc, Stage.userCode]
  simp only [Wheel.step, Wheel.wake, code, if_true]
  refine ⟨_, rfl, ?_⟩
  have pc₁ : (s.notifyWake.storeRunnable key).pc = .inTask c key (.poll v) := by
    rw [← pc]
    exact Wheel.notifyWake_pc s
  have settled : (s.notifyWake.storeRunnable key).settle = s.notifyWake.storeRunnable key := by
    simp only [Wheel.settle, pc₁]
  rw [settled]
  refine ⟨?_, ?_, ?_, pc₁, fun _ => rfl⟩ <;> (unfold Wheel.notifyWake; split <;> rfl)

theorem pending_touched {s : Wheel} {c : Caller} {key : TaskKey} {v : FutureId}
    (pc : s.pc = .inTask c key (.poll v)) : ∃ s', s.step (.done false) = some s' ∧
      Touched s s' key (StaticFuture.setPolling false ∘ StaticFuture.setFlag (.created v))
        (.back c key false) := by
  simp only [Wheel.step, Wheel.done, pc]
  have stored : Touched s (s.update key (StaticFuture.setFlag (.created v))) key
      (StaticFuture.setFlag (.created v)) s.pc := ⟨rfl, rfl, rfl, rfl, fun _ => rfl⟩
  exact ⟨_, rfl, stored.trans (leave_touched _ c key false)⟩

section Visits
variable {m : BlockOn} {b : Beat} {key : TaskKey} {t : StaticFuture}

theorem act_run {w : Wheel} (runs : m.step () = m.act .run) (taken : m.wheel.step .run = some w) :
    m.step () = some { m with wheel := w } := by
  simp only [runs, act, taken, Option.map_some]

/-- The task that was found runnable is in its poll; its async block has been created. -/
theorem opens (pc : m.wheel.pc = .sweep b key) (found : m.wheel.get key = some t)
    (reason : t.stopReason = .none) (runnable : t.runnable = true) (free : t.polling = false)
    (flag : t.flag ≠ .dropped) : ∃ w g v f, Reaches m { m with wheel := w, futures := g } ∧
      Touched m.wheel w key f (.inTask (.pollLocal { b with anyPoll := true } false) key (.poll v)) ∧
      f t = { t with runnable := false, polling := true, flag := .created v } ∧
      m.future t key = some (g key) ∧ ∀ k, k ≠ key → g k = m.futures k := by
  have chosen : m.step () = some { m with wheel := m.wheel.goto (.chosen b key false) } := by
    refine act_run (by simp only [step, pc]) ?_
    simp only [Wheel.step, Wheel.run, pc, found, Wheel.visit, reason, runnable, if_true]
  obtain ⟨stage, polls, known⟩ := pollLocal_touched (s := m.wheel.goto (.chosen b key false)) b
    found free flag
  have enters : ({ m with wheel := m.wheel.goto (.chosen b key false) } : BlockOn).step () =
      some { m with wheel := (m.wheel.goto (.chosen b key false)).pollLocal b key false } := rfl
  have inside := (goto_touched m.wheel key (.chosen b key false)).trans polls
  rcases known with ⟨uninit, rfl⟩ | ⟨v, value, rfl⟩
  · obtain ⟨w, taken, created⟩ := created_touched polls.pc'
    refine ⟨w, Function.update m.futures key (m.program key), _, _,
      ((Reaches.one chosen).then enters).then ?_, inside.trans created, ?_, ?_, ?_⟩
    · simp only [step, polls.pc', act, taken, Option.map_some]
    · rfl
    · simp only [future, reason, uninit, Function.update_self]
    · exact fun k away => Function.update_of_ne away _ _
  · refine ⟨_, m.futures, v, _, (Reaches.one chosen).then enters, inside, ?_, ?_, fun _ _ => rfl⟩
    · rw [← value]
      rfl
    · simp only [future, reason, value]

/-- The poll of the async block and what `handle_task` does after it. -/
theorem polls_ready {v : FutureId} (pc : m.wheel.pc = .inTask (.pollLocal b false) key (.poll v))
    (ready : (m.futures key).poll.1 = true) : ∃ w, Reaches m { m with
        wheel := w
        futures := Function.update m.futures key (m.futures key).poll.2
        polled := m.polled ++ [key] } ∧
      Touched m.wheel w key (StaticFuture.setPolling false ∘ StaticFuture.setFlag .dropped)
        (.back (.pollLocal b false) key true) := by
  obtain ⟨w, finishes, done⟩ := done_touched pc
  obtain ⟨w', drops, dropped⟩ := dropped_touched done.pc'
  have polls : m.step () = some { m with
      wheel := w
      futures := Function.update m.futures key (m.futures key).poll.2
      polled := m.polled ++ [key] } := by
    simp only [step, pc, pollFuture, ready, if_true, act, finishes, Option.map_some]
  refine ⟨w', (Reaches.one polls).then ?_, done.trans dropped⟩
  simp only [step, done.pc', act, drops, Option.map_some]

theorem polls_pending {v : FutureId} (pc : m.wheel.pc = .inTask (.pollLocal b false) key (.poll v))
    (pending : (m.futures key).poll.1 = false) : ∃ w, Reaches m { m with
        wheel := w
        futures := Function.update m.futures key (m.futures key).poll.2
        polled := m.polled ++ [key] } ∧
      Touched m.wheel w key ((StaticFuture.setPolling false ∘ StaticFuture.setFlag (.created v)) ∘
        StaticFuture.setRunnable true) (.back (.pollLocal b false) key false) := by
  obtain ⟨w, wakes, woken⟩ := wake_touched pc
  obtain ⟨w', waits, stopped⟩ := pending_touched woken.pc'
  refine ⟨w', .one ?_, woken.trans stopped⟩
  simp only [step, pc, pollFuture, pending, Bool.false_eq_true, if_false, act, wakes, Option.map_some,
    Option.bind_some, waits]

theorem need_of_get (found : m.wheel.get key = some t) :
    m.need key = ((m.future t key).map fun script => script.pendings + 1).getD 0 := by
  unfold need
  rw [found, Option.bind_some]
  cases m.future t key <;> rfl

/-- One task has been visited, and rests again. -/
theorem Resting.visited {m' : BlockOn} {f : StaticFuture → StaticFuture} (resting : Resting m)
    (found : m.wheel.get key = some t) (tasks : m'.wheel.tasks = m.wheel.tasks.modify key f)
    (rests : Rests (f t)) (start : ∀ t, (f t).startSuspended = t.startSuspended)
    (unfinished' : m'.wheel.alg.unfinishedCount + weight (going t) =
      m.wheel.alg.unfinishedCount + weight (going (f t)))
    (suspended : m'.wheel.alg.suspendedCount = m.wheel.alg.suspendedCount) : Resting m' where
  tasks k t' after := by
    cases before : m.wheel.get k with
    | none =>
      rw [Wheel.get_eq_tasks, tasks, List.getElem?_modify, ← Wheel.get_eq_tasks, before] at after
      simp at after
    | some old =>
      rcases Wheel.get_of_modify tasks before with ⟨here, now⟩ | ⟨_, same⟩
      · rw [here, found] at before
        cases before
        rw [now] at after
        cases after
        exact rests
      · rw [same] at after
        cases after
        exact resting.tasks k _ before
  unfinished := by
    have total := Wheel.countP_of_modify going found tasks
    have before := resting.unfinished
    omega
  suspended := by
    rw [suspended, resting.suspended, tasks]
    exact (countP_modify_same _ _ _ f (fun t => start t)).symm

theorem starts_modify {l : List StaticFuture} {f : StaticFuture → StaticFuture}
    (start : ∀ t, (f t).startSuspended = t.startSuspended) :
    (l.modify key f).map StaticFuture.startSuspended = l.map StaticFuture.startSuspended := by
  refine List.ext_getElem? (fun i => ?_)
  simp only [List.getElem?_map, List.getElem?_modify]
  split
  · cases l[i]? <;> simp [start]
  · simp

/-- What the other tasks still need has not changed. -/
theorem need_other {m' : BlockOn} {f : StaticFuture → StaticFuture} {k : TaskKey}
    (tasks : m'.wheel.tasks = m.wheel.tasks.modify key f) (program : m'.program = m.program)
    (futures : m'.futures k = m.futures k) (other : k ≠ key) : m'.need k = m.need k := by
  have same : m'.wheel.get k = m.wheel.get k := by
    simp [Wheel.get_eq_tasks, tasks, Ne.symm other]
  unfold need future
  rw [same, program, futures]

theorem resume_ready {s : Wheel} (pc : s.pc = .back (.pollLocal b false) key true) :
    s.step .run = some (((s.update key finish).withAlg StaticAlgorithm.decUnfinished).goto
      (.sweep b (key + 1))) := by
  simp only [Wheel.step, Wheel.run, pc, Wheel.resume, if_true]
  rfl

theorem resume_pending {s : Wheel} (pc : s.pc = .back (.pollLocal b false) key false) :
    s.step .run = some (s.goto (.sweep b (key + 1))) := by
  simp only [Wheel.step, Wheel.run, pc, Wheel.resume, Bool.false_eq_true, if_false]

/-- A visit in which the task was polled. -/
theorem Resting.turned {m' : BlockOn} {f : StaticFuture → StaticFuture} (resting : Resting m)
    (found : m.wheel.get key = some t) (reaches : Reaches m m')
    (tasks : m'.wheel.tasks = m.wheel.tasks.modify key f)
    (start : ∀ t, (f t).startSuspended = t.startSuspended) (rests : Rests (f t))
    (unfinished : m'.wheel.alg.unfinishedCount + weight (going t) =
      m.wheel.alg.unfinishedCount + weight (going (f t)))
    (suspended : m'.wheel.alg.suspendedCount = m.wheel.alg.suspendedCount)
    (program : m'.program = m.program) (futures : ∀ k, k ≠ key → m'.futures k = m.futures k)
    (polled : m'.polled = m.polled ++ [key]) (pendings : m'.pendings = m.pendings)
    (served : m'.need key = m.need key - 1) : Turned m m' [key] where
  reaches := reaches
  resting := resting.visited found tasks rests start unfinished suspended
  polled := polled
  need k := by
    by_cases here : k = key
    · rw [here, served, List.count_singleton_self]
    · rw [need_other tasks program (futures k here) here, List.count_singleton,
        if_neg (by simp [Ne.symm here]), Nat.sub_zero]
  pendings := pendings
  starts := by rw [tasks, starts_modify start]

/-- A task that is to be polled is polled, once. -/
theorem visit_due (resting : Resting m) (pc : m.wheel.pc = .sweep b key) (due : 0 < m.need key) :
    ∃ m', Turned m m' [key] ∧ m'.wheel.pc = .sweep { b with anyPoll := true } (key + 1) := by
  obtain ⟨t, found, left⟩ : ∃ t, m.wheel.get key = some t ∧ m.future t key ≠ none := by
    cases found : m.wheel.get key with
    | none => simp [need, found] at due
    | some t =>
      refine ⟨t, rfl, fun none => ?_⟩
      simp [need_of_get found, none] at due
  cases resting.tasks key t found with
  | finished reason start => simp [future, reason] at left
  | suspended reason start => simp [future, reason] at left
  | ready reason start runnable free flag =>
    obtain ⟨w, g, v, f, reaches, touched, value, script, others⟩ :=
      opens pc found reason runnable free flag
    have before : m.need key = (g key).pendings + 1 := by rw [need_of_get found, script]; rfl
    have going_on : going t = true := by simp [going, reason]
    have kept : ∀ k, k ≠ key → Function.update g key (g key).poll.2 k = m.futures k :=
      fun k away => (Function.update_of_ne away _ _).trans (others k away)
    cases ends : (g key).poll.1 with
    | true =>
      obtain ⟨w', polls, polled⟩ :=
        polls_ready (m := { m with wheel := w, futures := g }) touched.pc' ends
      have whole := touched.trans polled
      have last := polls.then (act_run (by simp only [step, polled.pc']) (resume_ready polled.pc'))
      have pos : 0 < w'.alg.unfinishedCount := by
        rw [whole.unfinished, resting.unfinished]
        exact List.countP_pos_iff.mpr ⟨t, List.mem_of_getElem? found, going_on⟩
      have tasks : (w'.update key finish).tasks = m.wheel.tasks.modify key _ :=
        (congrArg (List.modify · key finish) whole.tasks).trans (List.modify_modify_eq _ _ _ _)
      refine ⟨_, resting.turned found (reaches.trans last) tasks whole.start (.finished rfl ?_) ?_
        whole.suspended rfl kept rfl rfl ?_, rfl⟩
      · exact (whole.start t).trans start
      · have lowered := (Wheel.decUnfinished_pos pos).1
        change w'.alg.decUnfinished.unfinishedCount + weight (going t) = m.wheel.alg.unfinishedCount + 0
        rw [lowered, going_on, weight_true, ← whole.unfinished]
        omega
      · rw [need_of_get (get_of_tasks tasks found), before, (Script.poll_ready ends).1]
        rfl
    | false =>
      obtain ⟨w', polls, polled⟩ :=
        polls_pending (m := { m with wheel := w, futures := g }) touched.pc' ends
      have whole := touched.trans polled
      have last := polls.then (act_run (by simp only [step, polled.pc']) (resume_pending polled.pc'))
      have rested : (((StaticFuture.setPolling false ∘ StaticFuture.setFlag (.created v)) ∘
          StaticFuture.setRunnable true) ∘ f) t =
          { t with runnable := true, polling := false, flag := .created v } := by
        rw [Function.comp_apply, value]
        rfl
      refine ⟨_, resting.turned found (reaches.trans last) whole.tasks whole.start ?_ ?_ whole.suspended
        rfl kept rfl rfl ?_, rfl⟩
      · rw [rested]
        exact .ready reason start rfl rfl (by simp)
      · rw [rested]
        exact congrArg (· + weight (going t)) whole.unfinished
      · rw [need_of_get (get_of_tasks whole.tasks found), rested, before, ← Script.poll_pending ends]
        simp [future, reason]

/-- A step that no task notices. -/
theorem Resting.moved {w : Wheel} (resting : Resting m) (taken : m.step () = some { m with wheel := w })
    (tasks : w.tasks = m.wheel.tasks) (counts : w.alg.counters = m.wheel.alg.counters) :
    Turned m { m with wheel := w } [] where
  reaches := .one taken
  resting := {
    tasks := fun k t found =>
      resting.tasks k t (by rw [← found, Wheel.get_eq_tasks, Wheel.get_eq_tasks, tasks])
    unfinished := by rw [tasks, (Wheel.counters_unfinished counts).1]; exact resting.unfinished
    suspended := by rw [tasks, (Wheel.counters_suspended counts).1]; exact resting.suspended }
  polled := (List.append_nil _).symm
  need k := by
    unfold need
    rw [Wheel.get_eq_tasks, tasks]
    rfl
  pendings := rfl
  starts := by rw [tasks]

theorem Rests.done (rests : Rests t) (found : m.wheel.get key = some t) (none : m.need key = 0) :
    (t.stopReason = .finished ∧ t.startSuspended = false) ∨
      (t.stopReason = .suspended ∧ t.startSuspended = true) := by
  cases rests with
  | finished reason start => exact .inl ⟨reason, start⟩
  | suspended reason start => exact .inr ⟨reason, start⟩
  | ready reason start runnable free flag =>
    rw [need_of_get found] at none
    cases value : t.flag with
    | dropped => exact absurd value flag
    | _ => simp [future, reason, value] at none

/-- A task that has nothing more to do is passed over. -/
theorem visit_rest (resting : Resting m) (pc : m.wheel.pc = .sweep b key)
    (bound : key < m.wheel.tasks.length) (none : m.need key = 0) :
    ∃ m', Turned m m' [] ∧ m'.wheel.pc = .sweep b (key + 1) := by
  have found : m.wheel.get key = some m.wheel.tasks[key] := List.getElem?_eq_getElem bound
  have skips : m.wheel.step .run = some (m.wheel.goto (.sweep b (key + 1))) := by
    simp only [Wheel.step, Wheel.run, pc, found, Wheel.visit]
    rcases (resting.tasks key _ found).done found none with ⟨reason, _⟩ | ⟨reason, _⟩ <;>
      simp only [reason]
  exact ⟨_, resting.moved (act_run (by simp only [step, pc]) skips) rfl rfl, rfl⟩

/-- The rest of a sweep. -/
theorem sweeps {key : Nat} (resting : Resting m) (d : Nat) (pc : m.wheel.pc = .sweep b key)
    (length : key + d = m.wheel.tasks.length) :
    ∃ m' taken, taken = (List.range' key d).filter (fun k => decide (0 < m.need k)) ∧
      Turned m m' taken ∧
      m'.wheel.pc = .sweep { b with anyPoll := b.anyPoll || decide (taken ≠ []) } (key + d) := by
  induction d generalizing m b key with
  | zero => exact ⟨m, [], rfl, .refl resting, by simpa using pc⟩
  | succ d ih =>
    by_cases due : 0 < m.need key
    · obtain ⟨m₁, first, pc₁⟩ := visit_due resting pc due
      obtain ⟨m₂, taken, eq, rest, pc₂⟩ := ih first.resting pc₁ (by rw [first.length]; omega)
      refine ⟨m₂, key :: taken, ?_, first.trans rest, ?_⟩
      · rw [List.range'_succ, List.filter_cons_of_pos (by simpa using due), eq]
        congr 1
        refine List.filter_congr (fun k member => ?_)
        have above : key ≠ k := by
          have := (List.mem_range'_1.mp member).1
          omega
        rw [first.need, List.count_singleton, if_neg (by simpa using above), Nat.sub_zero]
      · rw [pc₂]
        simp [Nat.add_comm, Nat.add_left_comm]
    · have bound : key < m.wheel.tasks.length := by omega
      obtain ⟨m₁, first, pc₁⟩ := visit_rest resting pc bound (Nat.eq_zero_of_not_pos due)
      obtain ⟨m₂, taken, eq, rest, pc₂⟩ := ih first.resting pc₁ (by rw [first.length]; omega)
      refine ⟨m₂, taken, ?_, first.trans rest, ?_⟩
      · rw [List.range'_succ, List.filter_cons_of_neg (by simpa using due), eq]
        exact List.filter_congr (fun k _ => by rw [first.need]; rfl)
      · rw [pc₂, Nat.add_right_comm, Nat.add_assoc]

end Visits

section Sweeps
variable {m : BlockOn}

theorem need_past {k : TaskKey} (past : m.wheel.tasks.length ≤ k) : m.need k = 0 := by
  unfold need
  rw [Wheel.get_eq_tasks, List.getElem?_eq_none past]
  rfl

theorem turn_taken (k : TaskKey) :
    m.need k - ((List.range m.wheel.tasks.length).filter (fun k => decide (0 < m.need k))).count k =
      m.need k - 1 := by
  by_cases needs : 0 < m.need k
  · have bound : k < m.wheel.tasks.length := by
      by_contra past
      rw [need_past (Nat.le_of_not_lt past)] at needs
      exact Nat.lt_irrefl 0 needs
    rw [List.count_filter (by simpa using needs),
      List.count_eq_one_of_mem List.nodup_range (List.mem_range.mpr bound)]
  · omega

/-- The end of a sweep, where the loop of `beat_once` stops. -/
theorem past_end {b : Beat} (pc : m.wheel.pc = .sweep b m.wheel.tasks.length) :
    m.step () = some { m with wheel := m.wheel.endBeat b } := by
  have past : m.wheel.get m.wheel.tasks.length = none := List.getElem?_eq_none (Nat.le_refl _)
  refine act_run (by simp only [step, pc]) ?_
  simp only [Wheel.step, Wheel.run, pc, past]

/-- A whole sweep gives a turn to all that need one. -/
theorem sweep (resting : Resting m) (second : Bool) (pc : m.wheel.pc = .sweep ⟨second, false⟩ 0) :
    ∃ m' taken, taken = (List.range m.wheel.tasks.length).filter (fun k => decide (0 < m.need k)) ∧
      Turned m m' taken ∧ m'.wheel.pc = .sweep ⟨second, decide (taken ≠ [])⟩ m'.wheel.tasks.length := by
  obtain ⟨m', taken, eq, turned, pc'⟩ := sweeps resting m.wheel.tasks.length pc (Nat.zero_add _)
  refine ⟨m', taken, by rw [eq, List.range_eq_range'], turned, ?_⟩
  rw [pc', turned.length, Nat.zero_add]
  rfl

/-- Sweeps follow each other until no task needs a turn. -/
theorem laps (resting : Resting m) (pc : m.wheel.pc = .sweep ⟨false, false⟩ 0) {most : Nat}
    (bound : ∀ k, m.need k ≤ most) :
    ∃ m', Turned m m' (schedule m.need m.wheel.tasks.length) ∧
      m'.wheel.pc = .sweep ⟨false, false⟩ m'.wheel.tasks.length := by
  induction most generalizing m with
  | zero =>
    have done : ∀ k, m.need k = 0 := fun k => Nat.le_zero.mp (bound k)
    obtain ⟨m', taken, eq, turned, pc'⟩ := sweep resting false pc
    have none : taken = [] := by
      rw [eq, List.filter_eq_nil_iff]
      simp [done]
    rw [schedule_done (fun k _ => done k)]
    subst none
    exact ⟨m', turned, pc'⟩
  | succ most ih =>
    obtain ⟨m₁, taken, eq, turned, pc₁⟩ := sweep resting false pc
    have lowered : ∀ k, m₁.need k = m.need k - 1 := fun k => by rw [turned.need, eq, turn_taken]
    by_cases none : taken = []
    · have done : ∀ k, m.need k = 0 := by
        intro k
        have unchanged := turned.need k
        rw [none, List.count_nil, Nat.sub_zero, lowered] at unchanged
        omega
      rw [schedule_done (fun k _ => done k)]
      subst none
      exact ⟨m₁, turned, pc₁⟩
    · rw [decide_eq_true none] at pc₁
      have next := turned.resting.moved (past_end pc₁) rfl rfl
      obtain ⟨m₂, rest, pc₂⟩ := ih next.resting rfl (fun k => by
        rw [next.need, lowered]
        have := bound k
        simp only [List.count_nil]
        omega)
      refine ⟨m₂, ?_, pc₂⟩
      have all := (turned.trans next).trans rest
      have laps : schedule m.need m.wheel.tasks.length = (taken ++ []) ++
          schedule ({ m₁ with wheel := m₁.wheel.endBeat ⟨false, true⟩ } : BlockOn).need
            (m₁.wheel.endBeat ⟨false, true⟩).tasks.length := by
        rw [schedule_lap, List.append_nil, eq]
        congr 1
        refine (schedule_congr (fun k _ => ?_)).trans (congrArg _ turned.length.symm)
        exact (lowered k).symm
      rw [laps]
      exact all

/-- When no task needs a turn those that have not finished are the suspended ones. -/
theorem Resting.counts (resting : Resting m) (done : ∀ k, m.need k = 0) :
    m.wheel.alg.unfinishedCount = m.wheel.alg.suspendedCount := by
  rw [resting.unfinished, resting.suspended]
  refine List.countP_congr (fun t member => ?_)
  obtain ⟨k, found⟩ := List.mem_iff_getElem?.mp member
  rcases (resting.tasks k t found).done found (done k) with ⟨reason, start⟩ | ⟨reason, start⟩ <;>
    simp [going, reason, start]

theorem Resting.verdict (resting : Resting m) (done : ∀ k, m.need k = 0) :
    decide (m.wheel.alg.unfinishedCount = 0) =
      decide (true ∉ m.wheel.tasks.map StaticFuture.startSuspended) := by
  rw [resting.counts done, resting.suspended, decide_eq_decide, List.countP_eq_zero]
  simp

/-- After a sweep without a poll the waker is registered, the tasks are looked at once more,
and the wheel answers. -/
theorem answers (resting : Resting m) (pc : m.wheel.pc = .sweep ⟨false, false⟩ m.wheel.tasks.length)
    (done : ∀ k, m.need k = 0) : ∃ m', Turned m m' [] ∧ m'.wheel.pc =
      .returned (.ready (decide (true ∉ m.wheel.tasks.map StaticFuture.startSuspended))) := by
  obtain ⟨m₁, quiet, pc₁⟩ : ∃ m₁, Turned m m₁ [] ∧ m₁.wheel.pc = .register :=
    ⟨_, resting.moved (past_end pc) rfl rfl, rfl⟩
  have registers : m₁.wheel.step .run =
      some ((m₁.wheel.setLastWaker (some m₁.wheel.waker)).beginBeat true) := by
    simp only [Wheel.step, Wheel.run, pc₁]
  obtain ⟨m₂, listens, pc₂⟩ : ∃ m₂, Turned m₁ m₂ [] ∧ m₂.wheel.pc = .sweep ⟨true, false⟩ 0 :=
    ⟨_, quiet.resting.moved (act_run (by simp only [step, pc₁]) registers) rfl rfl, rfl⟩
  have waiting := quiet.trans listens
  obtain ⟨m₃, taken, eq, second, pc₃⟩ := sweep waiting.resting true pc₂
  obtain rfl : taken = [] := by
    rw [eq, List.filter_eq_nil_iff]
    simp [waiting.need, done]
  have pc₃ : m₃.wheel.pc = .sweep ⟨true, false⟩ m₃.wheel.tasks.length := pc₃
  have swept := waiting.trans second
  have still : ∀ k, m₃.need k = 0 := fun k => by rw [swept.need, done, Nat.zero_sub]
  have ends : m₃.wheel.endBeat ⟨true, false⟩ =
      m₃.wheel.goto (.finish (decide (m₃.wheel.alg.unfinishedCount = 0))) := by
    simp only [Wheel.endBeat, swept.resting.counts still, or_true, if_true]
  obtain ⟨m₄, decides, pc₄⟩ : ∃ m₄, Turned m₃ m₄ [] ∧
      m₄.wheel.pc = .finish (decide (m₃.wheel.alg.unfinishedCount = 0)) := by
    have turned := swept.resting.moved (past_end pc₃) (by rw [ends]; rfl) (by rw [ends]; rfl)
    exact ⟨_, turned, by rw [ends]; rfl⟩
  have clears : m₄.wheel.step .run = some ((m₄.wheel.setLastWaker none).goto
      (.returned (.ready (decide (m₃.wheel.alg.unfinishedCount = 0))))) := by
    simp only [Wheel.step, Wheel.run, pc₄]
  have last := decides.resting.moved (act_run (by simp only [step, pc₄]) clears) rfl rfl
  refine ⟨_, (swept.trans decides).trans last, ?_⟩
  rw [← swept.starts, ← swept.resting.verdict still]
  rfl

end Sweeps

/-! The result. -/

/-- How often each task is polled: once more than it yields, unless it starts suspended. -/
def turns (s : Wheel) (program : TaskKey → Script) (k : TaskKey) : Nat :=
  if (s.get k).any (fun t => !t.startSuspended) then (program k).pendings + 1 else 0

theorem start_resting {s : Wheel} (fresh : Wheel.Fresh s) (waker : Waker)
    (program : TaskKey → Script) : Resting (start s waker program) where
  tasks k t found := by
    have task := fresh.tasks t (List.mem_of_getElem? found)
    have reason := task.reason
    unfold StaticFuture.resetReason at reason
    cases start : t.startSuspended with
    | true => exact .suspended (by simpa [start] using reason) start
    | false =>
      have flag : t.flag ≠ .dropped := by simp [task.flag]
      exact .ready (by simpa [start] using reason) start task.runnable task.idle flag
  unfinished := by
    have all : s.tasks.countP going = s.tasks.length := by
      rw [List.countP_eq_length]
      intro t member
      have reason := (fresh.tasks t member).reason
      unfold StaticFuture.resetReason at reason
      unfold going
      rw [reason]
      split <;> rfl
    exact fresh.unfinished.trans all.symm
  suspended := fresh.suspended

theorem start_need {s : Wheel} (fresh : Wheel.Fresh s) (waker : Waker) (program : TaskKey → Script)
    (k : TaskKey) : (start s waker program).need k = turns s program k := by
  unfold need turns
  change (match (s.get k).bind fun t => (start s waker program).future t k with
    | some script => script.pendings + 1
    | none => 0) = _
  cases found : s.get k with
  | none => rfl
  | some t =>
    have task := fresh.tasks t (List.mem_of_getElem? found)
    have reason := task.reason
    unfold StaticFuture.resetReason at reason
    cases start : t.startSuspended <;> simp [future, reason, task.flag, start, BlockOn.start]

/-- A wheel whose tasks only yield does not make `block_on` wait. Its first poll polls the
tasks round and round in the order of the registry, each once more than it yields, and ends
the loop with the answer whether there was no suspended task. -/
theorem block_on_round_robin {s : Wheel} (fresh : Wheel.Fresh s) (waker : Waker)
    (program : TaskKey → Script) : ∃ m, Reaches (start s waker program) m ∧ m.step () = none ∧
      m.wheel.pc = .returned (.ready (decide (true ∉ s.tasks.map StaticFuture.startSuspended))) ∧
      m.pendings = 0 ∧ m.polled = schedule (turns s program) s.tasks.length ∧
      ∀ k < s.tasks.length, m.polled.count k = turns s program k := by
  obtain ⟨m₁, enters, pc₁⟩ : ∃ m₁, Turned (start s waker program) m₁ [] ∧ m₁.wheel.pc = .clear := by
    have polls : (start s waker program).step () = some { start s waker program with
        wheel := { s with waker := waker, woken := [], pc := .clear } } := by
      have pc : (start s waker program).wheel.pc = .idle := fresh.pc
      simp only [step, pc, act, Wheel.step, Wheel.poll, Option.map_some]
      rfl
    exact ⟨_, (start_resting fresh waker program).moved polls rfl rfl, rfl⟩
  have clears : m₁.wheel.step .run = some ((m₁.wheel.setLastWaker none).beginBeat false) := by
    simp only [Wheel.step, Wheel.run, pc₁]
  obtain ⟨m₂, begins, pc₂⟩ : ∃ m₂, Turned m₁ m₂ [] ∧ m₂.wheel.pc = .sweep ⟨false, false⟩ 0 :=
    ⟨_, enters.resting.moved (act_run (by simp only [step, pc₁]) clears) rfl rfl, rfl⟩
  have begun := enters.trans begins
  have bound : ∀ k, m₂.need k ≤ Turns.laps m₂.need m₂.wheel.tasks.length := by
    intro k
    by_cases present : k < m₂.wheel.tasks.length
    · exact need_le_laps present
    · rw [need_past (Nat.le_of_not_lt present)]
      exact Nat.zero_le _
  obtain ⟨m₃, rounds, pc₃⟩ := laps begun.resting pc₂ bound
  have done : ∀ k, m₃.need k = 0 := by
    intro k
    rw [rounds.need]
    by_cases present : k < m₂.wheel.tasks.length
    · rw [count_schedule m₂.need present, Nat.sub_self]
    · rw [need_past (Nat.le_of_not_lt present), Nat.zero_sub]
  obtain ⟨m, closing, pc⟩ := answers rounds.resting pc₃ done
  have whole := (begun.trans rounds).trans closing
  have needs : m₂.need = turns s program := by
    funext k
    rw [begun.need, start_need fresh]
    rfl
  have polled : m.polled = schedule (turns s program) s.tasks.length := by
    rw [whole.polled, needs, begun.length, List.append_nil]
    rfl
  refine ⟨m, whole.reaches, by simp only [step, pc], ?_, whole.pendings, polled, fun k present => ?_⟩
  · rw [pc, (begun.trans rounds).starts]
    rfl
  · rw [polled, count_schedule _ present]

/-- Two tasks that yield once and twice, and one that is suspended. -/
theorem block_on_round_robin_three : ∃ m,
    Reaches (start (Wheel.opened [⟨false, none⟩, ⟨true, none⟩, ⟨false, none⟩]) 0
      (fun k => if k = 0 then [.once false] else [.times 1, .yieldWhile [true, false]])) m ∧
    m.wheel.pc = .returned (.ready false) ∧ m.pendings = 0 ∧ m.polled = [0, 2, 0, 2, 2] := by
  have fresh : Wheel.Fresh (Wheel.opened [⟨false, none⟩, ⟨true, none⟩, ⟨false, none⟩]) :=
    Wheel.opened_fresh (by simp [usizeMax])
  obtain ⟨m, reaches, _, pc, pendings, polled, _⟩ := block_on_round_robin fresh 0
    (fun k => if k = 0 then [.once false] else [.times 1, .yieldWhile [true, false]])
  exact ⟨m, reaches, pc, pendings, polled.trans (by decide)⟩

end BlockOn
end Juggle.St
