import Juggle.Lib.Linear
import Juggle.Lib.Run

/-! The atomic cell of `utils/cell.rs` under interleaved calls of any number of threads.
The compare-exchange, the read, the run of a closure, the write and the release are one
step each. Steps are taken by a scheduler that also decides which exchanges fail
spuriously; those the hardware may fail for no reason. -/
namespace Juggle.Utils.Cell

/-- The calls. A closure gives its result and the mutated value, or panics. -/
inductive Call (T R : Type) where
  | trySwap (value : T)
  | swap (value : T)
  | tryApply (func : T → Option (R × T))
  | apply (func : T → Option (R × T))

inductive Outcome (T R : Type) where
  | ok (val : T)
  | err (value : T)
  | applied (res : R)
  | errFunc (func : T → Option (R × T))
  | panicked

/-- The next step of a call. `write` and `release` carry what the call will return. -/
inductive Phase (T R : Type) where
  | exchange
  | read
  | run (func : T → Option (R × T)) (first : T)
  | write (value : T) (ret : Outcome T R)
  | release (ret : Outcome T R)

/-- A call in progress. When it began and whether its exchange set the mark are ghosts. -/
structure Active (T R : Type) where
  call : Call T R
  phase : Phase T R
  began : Nat
  marked : Bool

structure Thread (T R : Type) where
  todo : List (Call T R)
  active : Option (Active T R)

/-- The cell, the threads, the number of steps taken and the calls that ended. -/
structure State (T R : Type) where
  mark : Bool
  cell : T
  threads : List (Thread T R)
  clock : Nat
  done : List (Linear.Record (Call T R) (Outcome T R))

structure Event where
  thread : Nat
  spurious : Bool

variable {T R : Type}

/-- `compare_exchange_weak(false, true)` with the mark after it. -/
def compareExchangeWeak (mark spurious : Bool) : Except Bool Bool × Bool :=
  if mark = false ∧ spurious = false then (.ok false, true) else (.error mark, mark)

/-- `res.unwrap_or_else(identity)`. -/
def unwrapOrElseIdentity : Except Bool Bool → Bool
  | .ok b => b
  | .error b => b

namespace State

def put (s : State T R) (i : Nat) (th : Thread T R) : State T R :=
  { s with threads := s.threads.set i th, clock := s.clock + 1 }

def finish (s : State T R) (i : Nat) (th : Thread T R) (a : Active T R) (ret : Outcome T R) :
    State T R :=
  { s.put i { th with active := none } with
    done := s.done ++ [⟨i, a.call, ret, a.began, s.clock⟩] }

def advance (s : State T R) (i : Nat) (th : Thread T R) (a : Active T R) (phase : Phase T R) :
    State T R :=
  s.put i { th with active := some { a with phase } }

end State

/-- A refused `try_` call returns its argument, the two others spin. -/
def interfered (s : State T R) (i : Nat) (th : Thread T R) (a : Active T R) : State T R :=
  match a.call with
  | .trySwap value => s.finish i th a (.err value)
  | .tryApply func => s.finish i th a (.errFunc func)
  | .swap _ | .apply _ => { s with clock := s.clock + 1 }

def stepCall (s : State T R) (i : Nat) (th : Thread T R) (a : Active T R) (spurious : Bool) :
    State T R :=
  match a.phase with
  | .exchange =>
    let res := compareExchangeWeak s.mark spurious
    if unwrapOrElseIdentity res.1 = true then interfered s i th a
    else { s with mark := res.2 }.advance i th { a with marked := res.2 } .read
  | .read =>
    match a.call with
    | .trySwap value | .swap value => s.advance i th a (.write value (.ok s.cell))
    | .tryApply func | .apply func => s.advance i th a (.run func s.cell)
  | .run func first =>
    match func first with
    | some (res, first) => s.advance i th a (.write first (.applied res))
    -- the guard releases the mark, the local copy is forgotten
    | none => s.advance i th a (.release .panicked)
  | .write value ret => { s with cell := value }.advance i th a (.release ret)
  | .release ret => { s with mark := false }.finish i th a ret

/-- A thread begins its next call or takes a step of the one it is in. -/
def step (s : State T R) (e : Event) : Option (State T R) :=
  match s.threads[e.thread]? with
  | none => none
  | some th =>
    match th.active with
    | some a => some (stepCall s e.thread th a e.spurious)
    | none =>
      match th.todo with
      | [] => none
      | call :: todo => some (s.put e.thread ⟨todo, some ⟨call, .exchange, s.clock, false⟩⟩)

def start (value : T) (calls : List (List (Call T R))) : State T R where
  mark := false
  cell := value
  threads := calls.map fun todo => ⟨todo, none⟩
  clock := 0
  done := []

end Juggle.Utils.Cell
