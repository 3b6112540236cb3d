import Juggle.Dy.Wheel
import Juggle.Lib.Shared

/-! `Wheel`, `LockedWheel` and `WheelHandle` of `dy/wheel.rs` and `dy/handle.rs`. A wheel
shares its scheduler with the calls that run through its handles, a locked wheel does not. -/
namespace Juggle.Dy
open Juggle.Sharing

-- `id` counts the calls of `new`.
structure Algorithm where
  id : Nat
  wheel : Wheel

namespace Wheel

/-- No call of `poll_internal` borrows the wheel. -/
def resting (s : Wheel) : Bool :=
  match s.pc with
  | .idle => true
  | .returned _ => true
  | _ => false

def after (s : Wheel) : Option Event → Option Wheel
  | none => some s
  | some e => s.step e

end Wheel

namespace Event

/-- What does not take a handle: polls and what happens in them, and wakers. -/
def direct : Event → Bool
  | .call (.wake _) => true
  | .call _ => false
  | .withName _ => false
  | .withNameEnd => false
  | _ => true

def isPoll : Event → Bool
  | .poll _ => true
  | _ => false

def isPanic : Event → Bool
  | .panic => true
  | _ => false

end Event

/-- The caller's code that a call of a handle runs: the closure of `with_name`, the
conversion of the parameters in `spawn_dyn`, the writer that `fmt_name` writes to. -/
inductive Code where
  | closure
  | conversion
  | writer
  deriving DecidableEq

structure Running where
  ptr : Ptr
  code : Code
  deriving DecidableEq

/-- A `Wheel` is a strong pointer, with the weak one of its `handle` field beside it. `calls`
are those that run code of the caller, the innermost first, with a strong one in `this`. -/
structure Program where
  heap : Heap Algorithm
  wheels : List Ptr
  locked : List Algorithm
  handles : List Ptr
  calls : List Running
  destroyed : List Algorithm
  made : Nat

namespace Program

inductive Event where
  | new (addr : Addr)
  -- also of the handle that `Wheel::handle` lends
  | clone (p : Ptr)
  | dropHandle (p : Ptr)
  | call (p : Ptr) (c : Call)
  | withName (p : Ptr) (key : TaskKey)
  | withNameEnd
  | spawnDyn (p : Ptr)
  -- with no parameters where the conversion has panicked
  | spawnDynEnd (params : Option SpawnParams)
  | fmtName (p : Ptr)
  | fmtNameEnd
  | direct (p : Ptr) (e : Dy.Event)
  | directLocked (i : Nat) (e : Dy.Event)
  | lock (p : Ptr)
  | unlock (i : Nat) (addr : Addr)
  | drop (p : Ptr)
  | dropLocked (i : Nat)

def start : Program where
  heap := Heap.empty
  wheels := []
  locked := []
  handles := []
  calls := []
  destroyed := []
  made := 0

def running (s : Program) : List Ptr := s.calls.map Running.ptr

def strong (s : Program) : List Ptr := s.wheels ++ s.running

def weak (s : Program) : List Ptr := s.wheels ++ s.handles

def isValid (s : Program) (p : Ptr) : Bool := decide (s.heap.strongCount p ≠ 0)

def isSame (p q : Ptr) : Bool := decide (p.addr = q.addr)

def resting (s : Program) (p : Ptr) : Bool := (s.heap.value p).any fun alg => alg.wheel.resting

/-- Unwinding ends the closures that are open in a poll one by one, before the poll. -/
def unwound (w : Wheel) (e : Dy.Event) : Bool := !e.isPanic || w.inner.isEmpty

def act (s : Program) (p : Ptr) (e : Option Dy.Event) : Option Program :=
  (s.heap.value p).bind fun alg => (alg.wheel.after e).map fun w =>
    { s with heap := s.heap.modify p fun _ => ⟨alg.id, w⟩ }

/-- A strong pointer is dropped, and with the last one the scheduler. -/
def release (s : Program) (p : Ptr) : Program :=
  { s with
    heap := (s.heap.dropStrong p).2
    destroyed := (s.heap.dropStrong p).1.toList ++ s.destroyed }

def fromInner (s : Program) (alg : Algorithm) (addr : Addr) : Option Program :=
  (s.heap.alloc addr alg).map fun (p, heap) =>
    { s with heap := heap.addWeak p, wheels := p :: s.wheels }

def clone (s : Program) (p : Ptr) : Option Program :=
  if p ∈ s.weak then some { s with heap := s.heap.addWeak p, handles := p :: s.handles } else none

def dropHandle (s : Program) (p : Ptr) : Option Program :=
  if p ∈ s.handles then
    some { s with heap := s.heap.dropWeak p, handles := s.handles.erase p }
  else none

-- `unwrap_weak!`, the work, and the end of `this`.
def call (s : Program) (p : Ptr) (c : Call) : Option Program :=
  if p ∈ s.weak ∧ (Dy.Event.call c).direct = false then
    match s.heap.upgrade p with
    | none => some s
    | some heap => ({ s with heap := heap }.act p (some (.call c))).map (release · p)
  else none

/-- A call up to the caller's code. Where the handle is not valid `with_name` and `fmt_name`
run that code too, but nothing is kept. -/
def enter (s : Program) (p : Ptr) (code : Code) (e : Option Dy.Event) : Option Program :=
  if p ∈ s.weak then
    match s.heap.upgrade p with
    | none => some s
    | some heap =>
      ({ s with heap := heap }.act p e).map fun (t : Program) =>
        { t with calls := ⟨p, code⟩ :: t.calls }
  else none

-- The innermost call from the end of the caller's code, which has returned or panicked.
def leave (s : Program) (code : Code) (e : Option Dy.Event) : Option Program :=
  match s.calls with
  | [] => none
  | c :: calls =>
    if c.code = code then
      (s.act c.ptr e).map fun (t : Program) => { t with calls := calls }.release c.ptr
    else none

def withName (s : Program) (p : Ptr) (key : TaskKey) : Option Program :=
  s.enter p .closure (some (.withName key))

def withNameEnd (s : Program) : Option Program := s.leave .closure (some .withNameEnd)

-- `params.into()` runs when `this` is made, and before `register`.
def spawnDyn (s : Program) (p : Ptr) : Option Program := s.enter p .conversion none

def spawnDynEnd (s : Program) (params : Option SpawnParams) : Option Program :=
  s.leave .conversion (params.map fun params => .call (.register params))

def fmtName (s : Program) (p : Ptr) : Option Program := s.enter p .writer none

def fmtNameEnd (s : Program) : Option Program := s.leave .writer none

-- Polling takes the `Wheel` itself; what a poll or a waker does later does not.
def direct (s : Program) (p : Ptr) (e : Dy.Event) : Option Program :=
  if e.direct ∧ (p ∈ s.wheels ∨ (p ∈ s.running ∧ e.isPoll = false)) ∧
      (s.heap.value p).all (fun alg => unwound alg.wheel e) then s.act p (some e)
  else none

def directLocked (s : Program) (i : Nat) (e : Dy.Event) : Option Program :=
  s.locked[i]?.bind fun alg =>
    if e.direct ∧ unwound alg.wheel e then
      (alg.wheel.step e).map fun w => { s with locked := s.locked.set i ⟨alg.id, w⟩ }
    else none

-- The `Wheel` object is taken apart: `ptr` goes, and what it gave up is returned.
def unmake (s : Program) (p : Ptr) : Option Algorithm × Program :=
  ((s.heap.dropStrong p).1,
    { s with heap := (s.heap.dropStrong p).2.dropWeak p, wheels := s.wheels.erase p })

/-- `Rc::try_unwrap` succeeds for the only strong pointer. Otherwise it hands the pointer
back, `ok()` drops it and `expect` panics. -/
def lock (s : Program) (p : Ptr) : Option Program :=
  if p ∈ s.wheels ∧ s.resting p then
    match s.unmake p with
    | (some alg, t) => some { t with locked := alg :: t.locked }
    | (none, t) => some t
  else none

def drop (s : Program) (p : Ptr) : Option Program :=
  if p ∈ s.wheels ∧ s.resting p then
    match s.unmake p with
    | (gone, t) => some { t with destroyed := gone.toList ++ t.destroyed }
  else none

def unlock (s : Program) (i : Nat) (addr : Addr) : Option Program :=
  s.locked[i]?.bind fun alg =>
    if alg.wheel.resting then { s with locked := s.locked.eraseIdx i }.fromInner alg addr
    else none

def dropLocked (s : Program) (i : Nat) : Option Program :=
  s.locked[i]?.bind fun alg =>
    if alg.wheel.resting then
      some { s with locked := s.locked.eraseIdx i, destroyed := alg :: s.destroyed }
    else none

def step (s : Program) : Event → Option Program
  | .new addr => { s with made := s.made + 1 }.fromInner ⟨s.made, Wheel.new⟩ addr
  | .clone p => s.clone p
  | .dropHandle p => s.dropHandle p
  | .call p c => s.call p c
  | .withName p key => s.withName p key
  | .withNameEnd => s.withNameEnd
  | .spawnDyn p => s.spawnDyn p
  | .spawnDynEnd params => s.spawnDynEnd params
  | .fmtName p => s.fmtName p
  | .fmtNameEnd => s.fmtNameEnd
  | .direct p e => s.direct p e
  | .directLocked i e => s.directLocked i e
  | .lock p => s.lock p
  | .unlock i addr => s.unlock i addr
  | .drop p => s.drop p
  | .dropLocked i => s.dropLocked i

end Program
end Juggle.Dy
