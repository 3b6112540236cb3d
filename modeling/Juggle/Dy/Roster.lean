import Juggle.Dy.Wheel
import Juggle.Lib.Trace
import Mathlib.Data.Set.Card
import Mathlib.Logic.Function.Basic

/-! What a wheel is for, without slab, queues and sweeps: a roster of tasks that the
handles ask about, one of which at a time is polled or leaves. Which key a task gets and
which runnable task comes next is left open, so both schedulers can be compared with it. -/
namespace Juggle.Dy
open Juggle.Traces

/-- What can be known of a task from outside. -/
structure Member where
  tid : Tid
  name : TaskName
  stopReason : StopReason
  runnable : Bool

namespace Member

def new (tid : Tid) (params : SpawnParams) : Member where
  tid := tid
  name := params.name
  stopReason := if params.suspended then .suspended else .none
  runnable := true

def state (e : Member) : State :=
  match e.stopReason with
  | .cancelled => .cancelled
  | .suspended => .suspended
  | .none => if e.runnable then .runnable else .waiting

end Member

/-! The requests, as partial functions on the stop reason. -/

def StopReason.suspend : StopReason → Option StopReason
  | .none => some .suspended
  | _ => Option.none

def StopReason.resume : StopReason → Option StopReason
  | .suspended => some .none
  | _ => Option.none

def StopReason.cancel : StopReason → Option StopReason
  | .cancelled => Option.none
  | _ => some .cancelled

def Call.request : Call → Option (TaskKey × (StopReason → Option StopReason))
  | .suspend key => some (key, StopReason.suspend)
  | .resume key => some (key, StopReason.resume)
  | .cancel key => some (key, StopReason.cancel)
  | _ => none

deriving instance DecidableEq for SpawnParams, Call

inductive Answer where
  | key (k : Option TaskKey)
  | flag (ok : Bool)
  | state (st : State)
  | count (n : Nat)
  | done
  deriving DecidableEq

/-- What a run shows: the handle calls with their answers, the wakes that reach the
flags of a task, and the scheduler's own acts. -/
inductive Act where
  | call (c : Call) (a : Answer)
  | wake (task : TaskRef)
  | pick (task : TaskRef)
  /-- the poll ends, and the task stays -/
  | pause (task : TaskRef)
  | finish (task : TaskRef)
  /-- a cancelled task is taken up for removal -/
  | condemn (task : TaskRef)
  | retire (task : TaskRef)
  deriving DecidableEq

namespace Act

def registers (k : TaskKey) (l : Act) : Prop :=
  ∃ params, l = .call (.register params) (.key (some k))

/-- A request on the task at the key is granted. -/
def grants (k : TaskKey) (l : Act) : Prop :=
  ∃ c f, c.request = some (k, f) ∧ l = .call c (.flag true)

def picks (k : TaskKey) (l : Act) : Prop := ∃ tid, l = .pick ⟨k, tid⟩

def finishes (k : TaskKey) (l : Act) : Prop := ∃ tid, l = .finish ⟨k, tid⟩

def retires (k : TaskKey) (l : Act) : Prop := ∃ tid, l = .retire ⟨k, tid⟩

def isRegister : Act → Bool
  | .call (.register _) (.key (some _)) => true
  | _ => false

def isRetire : Act → Bool
  | .retire _ => true
  | _ => false

def subject : Act → Option TaskRef
  | .pick task => some task
  | .pause task => some task
  | .finish task => some task
  | .condemn task => some task
  | .retire task => some task
  | _ => none

end Act

/-- The tasks by their keys, the one that is polled and the one about to be removed. -/
@[ext] structure Roster where
  tasks : TaskKey → Option Member
  polled : Option TaskRef
  leaving : Option TaskRef
  nextTid : Tid

namespace Roster

def empty : Roster := ⟨fun _ => none, none, none, 0⟩

def Holds (m : Roster) (task : TaskRef) (e : Member) : Prop :=
  m.tasks task.key = some e ∧ e.tid = task.tid

def Named (m : Roster) (name : String) (k : TaskKey) : Prop :=
  ∃ e, m.tasks k = some e ∧ e.name.asStr = some name

def live (m : Roster) : Set TaskKey := {k | (m.tasks k).isSome = true}

def set (m : Roster) (k : TaskKey) (e : Option Member) : Roster :=
  { m with tasks := Function.update m.tasks k e }

def state (m : Roster) (k : TaskKey) : State := ((m.tasks k).map Member.state).getD .inactive

/-- The task at the key with the reason that the request sets, where it is granted. -/
def ask (m : Roster) (k : TaskKey) (f : StopReason → Option StopReason) : Option Member :=
  (m.tasks k).bind fun e => (f e.stopReason).map fun r => { e with stopReason := r }

def wake (m : Roster) (task : TaskRef) : Roster :=
  match m.tasks task.key with
  | some e => if e.tid = task.tid then m.set task.key (some { e with runnable := true }) else m
  | none => m

/-- The answers to the handle calls and what they leave behind. -/
inductive Answers (m : Roster) : Call → Answer → Roster → Prop
  | register (params : SpawnParams) (k : TaskKey) (free : m.tasks k = none) :
      Answers m (.register params) (.key (some k))
        { m.set k (some (Member.new m.nextTid params)) with nextTid := m.nextTid + 1 }
  | granted (c : Call) (k : TaskKey) (f : StopReason → Option StopReason) (e : Member)
      (request : c.request = some (k, f)) (asked : m.ask k f = some e) :
      Answers m c (.flag true) (m.set k (some e))
  | refused (c : Call) (k : TaskKey) (f : StopReason → Option StopReason)
      (request : c.request = some (k, f)) (asked : m.ask k f = none) : Answers m c (.flag false) m
  | getState (k : TaskKey) : Answers m (.getState k) (.state (m.state k)) m
  | named (name : String) (k : TaskKey) (named : m.Named name k)
      (first : ∀ j, m.Named name j → k ≤ j) : Answers m (.getByName name) (.key (some k)) m
  | unnamed (name : String) (nobody : ∀ k, ¬ m.Named name k) :
      Answers m (.getByName name) (.key none) m
  | registeredCount :
      Answers m .registeredCount (.count m.live.ncard) m

/-- One act. With `strict` only a runnable task is polled. -/
inductive Next (strict : Prop) (m : Roster) : Act → Roster → Prop
  | call {c : Call} {a : Answer} {n : Roster} (answers : m.Answers c a n) :
      Next strict m (.call c a) n
  | wake (task : TaskRef) : Next strict m (.wake task) (m.wake task)
  | pick (task : TaskRef) (e : Member) (idle : m.polled = none) (calm : m.leaving = none)
      (found : m.Holds task e) (allowed : e.stopReason = .none)
      (ready : strict → e.runnable = true) :
      Next strict m (.pick task)
        { m.set task.key (some { e with runnable := false }) with polled := some task }
  | pause (task : TaskRef) (busy : m.polled = some task) :
      Next strict m (.pause task) { m with polled := none }
  | finish (task : TaskRef) (busy : m.polled = some task) (calm : m.leaving = none) :
      Next strict m (.finish task) { m with polled := none, leaving := some task }
  | condemn (task : TaskRef) (e : Member) (idle : m.polled = none) (calm : m.leaving = none)
      (found : m.Holds task e) (cancelled : e.stopReason = .cancelled) :
      Next strict m (.condemn task) { m with leaving := some task }
  | retire (task : TaskRef) (e : Member) (idle : m.polled = none)
      (leaving : m.leaving = some task) (found : m.Holds task e) :
      Next strict m (.retire task) { m.set task.key none with leaving := none }

end Roster
end Juggle.Dy
