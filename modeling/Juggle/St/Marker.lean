import Mathlib.Algebra.Group.Nat.Defs
import Mathlib.Data.List.Basic
import Juggle.Lib.Run

/-! The marked cell of `st/atomic_marker.rs` under interleaved calls of any number of threads.
The exchange, the access to the value and the releasing exchange or mask are one step each.
Calls that get past their exchange are alone until they release the mark; a take that
meets a put leaves the value to it. -/
namespace Juggle.St.Marker
open Juggle.Runs

def idle : Nat := 0
def putting : Nat := 0b01
def marking : Nat := 0b10

/-- `!MARKING` -/
def notMarking : Nat := 2 ^ 64 - 1 - marking

/-- `Result<T, &T>`: a value, or a reference that is cloned when it is stored. -/
inductive Given (T : Type) where
  | ok (value : T)
  | err (reference : T)

namespace Given
variable {T : Type}

def stored : Given T → T
  | .ok value => value
  | .err reference => reference

/-- What a refused call gives back. -/
def ok? : Given T → Option T
  | .ok value => some value
  | .err _ => none

end Given

inductive Call (T : Type) where
  | tryPut (value : Option (Given T))
  | take

/-- A value with the time at which the call that wrote it began. The time is a ghost. -/
abbrev Stamped (T : Type) := T × Nat

inductive PutResult (T : Type) where
  | takenDuringPut (value : Option (Stamped T))
  | success
  | takenBeforePut (value : Option T)
  | concurrentPut (value : Option T)

inductive TakeResult (T : Type) where
  | some (value : Stamped T)
  | none
  | concurrentTake
  | concurrentPut

/-- A call may also end in a debug assertion that fails. -/
inductive Outcome (T : Type) where
  | put (result : PutResult T)
  | take (result : TakeResult T)
  | assertion

/-- The next step of a call. A value that was taken out is in the hand of the call. -/
inductive Phase (T : Type) where
  | exchange (value : Option (Given T))
  | write (value : Option (Given T))
  | release
  | takeBack
  | swap (hand : Option (Stamped T))
  | fetchOr
  | takeOut
  | fetchAnd (hand : Option (Stamped T))

structure Active (T : Type) where
  call : Call T
  phase : Phase T
  began : Nat

structure Thread (T : Type) where
  todo : List (Call T)
  active : Option (Active T)

/-- A call that has ended. A take that met a put keeps the time at which that put began. -/
structure Record (T : Type) where
  thread : Nat
  call : Call T
  ret : Outcome T
  began : Nat
  ended : Nat
  met : Option Nat

/-- The cell, the threads, the number of steps taken and the calls that ended. Ghosts are
the beginning of the call that got past its exchange last, and the logs of the values that
were written and of those that a write has dropped. -/
structure State (T : Type) where
  mark : Nat
  value : Option (Stamped T)
  threads : List (Thread T)
  clock : Nat
  done : List (Record T)
  holder : Nat
  written : List (Stamped T)
  overwritten : List (Stamped T)

variable {T : Type}

/-- `compare_exchange(current, new)` with the mark after it. -/
def compareExchange (mark current new : Nat) : Except Nat Nat × Nat :=
  if mark = current then (.ok mark, new) else (.error mark, mark)

/-- `unwrap_or_else(identity)` -/
def unwrapOrElseIdentity : Except Nat Nat → Nat
  | .ok mark => mark
  | .error mark => mark

namespace State

/-- Thread `i` goes on as `th`. -/
def put (s : State T) (i : Nat) (th : Thread T) : State T :=
  { s with threads := s.threads.set i th, clock := s.clock + 1 }

def advance (s : State T) (i : Nat) (th : Thread T) (a : Active T) (phase : Phase T) : State T :=
  s.put i { th with active := some { a with phase } }

/-- The call of thread `i` returns. -/
def finish (s : State T) (i : Nat) (th : Thread T) (a : Active T) (ret : Outcome T)
    (met : Option Nat) : State T :=
  { s.put i { th with active := none } with
    done := s.done ++ [⟨i, a.call, ret, a.began, s.clock, met⟩] }

end State

def stamp (value : Option (Given T)) (began : Nat) : Option (Stamped T) :=
  value.map fun v => (v.stored, began)

/-- One step of the call that thread `i` is in. -/
def stepCall (s : State T) (i : Nat) (th : Thread T) (a : Active T) : State T :=
  match a.phase with
  | .exchange value =>
    let (res, mark) := compareExchange s.mark idle putting
    let seen := unwrapOrElseIdentity res
    let s := { s with mark }
    if seen = idle then { s with holder := a.began }.advance i th a (.write value)
    else if seen = marking then
      s.finish i th a (.put (.takenBeforePut (value.bind Given.ok?))) none
    else if seen = putting ∨ seen = putting ||| marking then
      s.finish i th a (.put (.concurrentPut (value.bind Given.ok?))) none
    else s.finish i th a .assertion none
  | .write value =>
    { s with
      value := stamp value a.began
      written := s.written ++ (stamp value a.began).toList
      overwritten := s.overwritten ++ s.value.toList }.advance i th a .release
  | .release =>
    match compareExchange s.mark putting idle with
    | (.ok _, mark) => { s with mark }.finish i th a (.put .success) none
    | (.error seen, mark) =>
      let s := { s with mark }
      if seen = putting ||| marking then s.advance i th a .takeBack
      else s.finish i th a .assertion none
  | .takeBack => { s with value := none }.advance i th a (.swap s.value)
  | .swap hand => { s with mark := idle }.finish i th a (.put (.takenDuringPut hand)) none
  | .fetchOr =>
    let seen := s.mark
    let s := { s with mark := s.mark ||| marking }
    if seen = idle then { s with holder := a.began }.advance i th a .takeOut
    else if seen = putting ∨ seen = putting ||| marking ∨ seen = marking then
      if seen &&& marking ≠ 0 then s.finish i th a (.take .concurrentTake) none
      else s.finish i th a (.take .concurrentPut) (some s.holder)
    else s.finish i th a .assertion none
  | .takeOut => { s with value := none }.advance i th a (.fetchAnd s.value)
  | .fetchAnd hand =>
    let s := { s with mark := s.mark &&& notMarking }
    match hand with
    | some v => s.finish i th a (.take (.some v)) none
    | none => s.finish i th a (.take .none) none

def Call.first : Call T → Phase T
  | .tryPut value => .exchange value
  | .take => .fetchOr

/-- Thread `i` begins its next call or takes a step of the one it is in. -/
def step (s : State T) (i : Nat) : Option (State T) :=
  match s.threads[i]? with
  | none => none
  | some th =>
    match th.active with
    | some a => some (stepCall s i th a)
    | none =>
      match th.todo with
      | [] => none
      | call :: todo => some (s.put i ⟨todo, some ⟨call, call.first, s.clock⟩⟩)

/-- The first value is stamped with the time zero, before any call. -/
def start (value : Option T) (calls : List (List (Call T))) : State T where
  mark := idle
  value := value.map fun v => (v, 0)
  threads := calls.map fun todo => ⟨todo, none⟩
  clock := 1
  done := []
  holder := 0
  written := (value.map fun v => (v, 0)).toList
  overwritten := []

/-- Past the exchange and before the release of the mark. -/
def Phase.inside : Phase T → Bool
  | .exchange _ | .fetchOr => false
  | _ => true

/-- The marks under which a call can be in a phase. -/
def Phase.allows (mark : Nat) : Phase T → Prop
  | .exchange _ | .fetchOr => True
  | .write _ | .release => mark = putting ∨ mark = putting ||| marking
  | .takeBack | .swap _ => mark = putting ||| marking
  | .takeOut | .fetchAnd _ => mark = marking

def Phase.hand : Phase T → Option (Stamped T)
  | .swap hand | .fetchAnd hand => hand
  | _ => none

/-- The call may still write. -/
def Phase.unwritten : Phase T → Bool
  | .exchange _ | .fetchOr | .write _ => true
  | _ => false

theorem Phase.outside_cases {phase : Phase T} (outside : phase.inside = false) :
    phase.hand = none ∧ phase.unwritten = true := by
  cases phase with
  | exchange | fetchOr => exact ⟨rfl, rfl⟩
  | write | release | takeBack | swap | takeOut | fetchAnd => cases outside

def State.active (s : State T) (i : Nat) : Option (Active T) := s.threads[i]?.bind Thread.active

/-- At most one call is inside, and the mark tells what it is. -/
structure Exclusive (s : State T) : Prop where
  alone : ∀ i j a b, s.active i = some a → s.active j = some b →
    a.phase.inside = true → b.phase.inside = true → i = j
  holds : ∀ i a, s.active i = some a → a.phase.inside = true →
    a.phase.allows s.mark ∧ s.holder = a.began
  free : (∀ i a, s.active i = some a → a.phase.inside = false) → s.mark = idle

namespace Outcome

/-- The value that a call returns out of the cell. -/
def value : Outcome T → Option (Stamped T)
  | .put (.takenDuringPut value) => value
  | .take (.some value) => some value
  | _ => none

def duringPut : Outcome T → Bool
  | .put (.takenDuringPut _) => true
  | _ => false

/-- The call was refused and has left no trace. -/
def refused : Outcome T → Bool
  | .put (.takenBeforePut _) | .put (.concurrentPut _) | .take .concurrentTake => true
  | _ => false

theorem refused_plain {ret : Outcome T} (refused : ret.refused = true) :
    ret.value = none ∧ ret.duringPut = false ∧ ret ≠ .assertion ∧ ret ≠ .take .concurrentPut := by
  match ret, refused with
  | .put (.takenBeforePut _), _ | .put (.concurrentPut _), _ | .take .concurrentTake, _ =>
    exact ⟨rfl, rfl, nofun, nofun⟩

end Outcome

section Moves
variable {s t : State T} {i : Nat} {th : Thread T}

theorem active_of_found (found : s.threads[i]? = some th) : s.active i = th.active := by
  rw [State.active, found]
  rfl

theorem Exclusive.mark_cases (inv : Exclusive s) :
    s.mark = idle ∨ s.mark = putting ∨ s.mark = marking ∨ s.mark = putting ||| marking := by
  by_cases empty : ∀ i a, s.active i = some a → a.phase.inside = false
  · exact .inl (inv.free empty)
  · simp only [not_forall, Bool.not_eq_false] at empty
    obtain ⟨i, a, active, inside⟩ := empty
    have allowed := (inv.holds i a active inside).1
    cases phase : a.phase with
    | exchange | fetchOr =>
      rw [phase] at inside
      cases inside
    | write | release =>
      rw [phase] at allowed
      exact .inr (allowed.elim .inl (fun both => .inr (.inr both)))
    | takeBack | swap =>
      rw [phase] at allowed
      exact .inr (.inr (.inr allowed))
    | takeOut | fetchAnd =>
      rw [phase] at allowed
      exact .inr (.inr (.inl allowed))

/-- What a step of thread `i` can do where the mark tells who is inside. -/
inductive Move (s : State T) (i : Nat) (th : Thread T) : State T → Prop
  | begin {call : Call T} {todo : List (Call T)} (waits : th.active = none)
      (next : th.todo = call :: todo) :
      Move s i th (s.put i ⟨todo, some ⟨call, call.first, s.clock⟩⟩)
  | refuse {a : Active T} {ret : Outcome T} (active : th.active = some a)
      (outside : a.phase.inside = false) (refused : ret.refused = true) (busy : s.mark ≠ idle) :
      Move s i th (s.finish i th a ret none)
  | meet {a : Active T} (active : th.active = some a) (outside : a.phase.inside = false)
      (found : s.mark = putting) :
      Move s i th ({ s with mark := putting ||| marking }.finish i th a (.take .concurrentPut)
        (some s.holder))
  | enter {a : Active T} {phase : Phase T} {mark : Nat} (active : th.active = some a)
      (outside : a.phase.inside = false) (free : s.mark = idle) (inside : phase.inside = true)
      (allows : phase.allows mark) (empty : phase.hand = none) (alone : mark ≠ putting ||| marking) :
      Move s i th ({ s with mark, holder := a.began }.advance i th a phase)
  | write {a : Active T} {value : Option (Given T)} (active : th.active = some a)
      (phase : a.phase = .write value) :
      Move s i th ({ s with
        value := stamp value a.began
        written := s.written ++ (stamp value a.began).toList
        overwritten := s.overwritten ++ s.value.toList }.advance i th a .release)
  | detour {a : Active T} (active : th.active = some a) (phase : a.phase = .release)
      (met : s.mark = putting ||| marking) : Move s i th (s.advance i th a .takeBack)
  | takeOut {a : Active T} {phase : Phase T} (active : th.active = some a)
      (inside : a.phase.inside = true) (still : phase.inside = true)
      (allows : ∀ mark, a.phase.allows mark → phase.allows mark) (empty : a.phase.hand = none)
      (hand : phase.hand = s.value) (past : phase.unwritten = false) :
      Move s i th ({ s with value := none }.advance i th a phase)
  | leave {a : Active T} {ret : Outcome T} (active : th.active = some a)
      (inside : a.phase.inside = true) (gives : ret.value = a.phase.hand)
      (ends : ret ≠ .assertion ∧ ret ≠ .take .concurrentPut)
      (during : ret.duringPut = true ↔ s.mark = putting ||| marking) :
      Move s i th ({ s with mark := idle }.finish i th a ret none)

theorem compareExchange_ne {mark current : Nat} (new : Nat) (other : mark ≠ current) :
    compareExchange mark current new = (.error mark, mark) := if_neg other

theorem exchange_move (inv : Exclusive s) {a : Active T} {value : Option (Given T)}
    (active : th.active = some a) (phase : a.phase = .exchange value) :
    Move s i th (stepCall s i th a) := by
  have outside : a.phase.inside = false := by rw [phase]; rfl
  by_cases free : s.mark = idle
  · simp only [stepCall, phase, compareExchange, free]
    exact .enter active outside free rfl (.inl rfl) rfl (by decide)
  · simp only [stepCall, phase, compareExchange_ne putting free, unwrapOrElseIdentity, if_neg free]
    by_cases taken : s.mark = marking
    · rw [if_pos taken]
      exact .refuse active outside rfl free
    · have put : s.mark = putting ∨ s.mark = putting ||| marking :=
        inv.mark_cases.elim (fun h => absurd h free) fun h =>
          h.imp_right (fun h => h.resolve_left taken)
      rw [if_neg taken, if_pos put]
      exact .refuse active outside rfl free

theorem fetchOr_move (inv : Exclusive s) {a : Active T} (active : th.active = some a)
    (phase : a.phase = .fetchOr) : Move s i th (stepCall s i th a) := by
  have outside : a.phase.inside = false := by rw [phase]; rfl
  simp only [stepCall, phase]
  by_cases free : s.mark = idle
  · rw [if_pos free, free]
    exact .enter active outside free rfl rfl rfl (by decide)
  · have busy : s.mark = putting ∨ s.mark = putting ||| marking ∨ s.mark = marking :=
      inv.mark_cases.elim (fun h => absurd h free) fun h => h.imp_right Or.symm
    rw [if_neg free, if_pos busy]
    have marked : s.mark ≠ putting → s.mark ||| marking = s.mark ∧ s.mark &&& marking ≠ 0 := by
      intro other
      rcases busy.resolve_left other with both | take
      · rw [both]
        decide
      · rw [take]
        decide
    by_cases found : s.mark = putting
    · rw [found, if_neg (by decide)]
      exact .meet active outside found
    · rw [(marked found).1, if_pos (marked found).2]
      exact .refuse active outside rfl free

theorem release_move (inv : Exclusive s) (found : s.threads[i]? = some th) {a : Active T}
    (active : th.active = some a) (phase : a.phase = .release) :
    Move s i th (stepCall s i th a) := by
  have inside : a.phase.inside = true := by rw [phase]; rfl
  have allowed := (inv.holds i a ((active_of_found found).trans active) inside).1
  rw [phase] at allowed
  simp only [stepCall, phase]
  by_cases free : s.mark = putting
  · have other : s.mark ≠ putting ||| marking := by
      rw [free]
      decide
    simp only [compareExchange, if_pos free]
    exact .leave active inside (by rw [phase]; rfl) ⟨nofun, nofun⟩ (iff_of_false nofun other)
  · have both := allowed.resolve_left free
    simp only [compareExchange_ne idle free, if_pos both]
    exact .detour active phase both

theorem step_move (inv : Exclusive s) (taken : step s i = some t) :
    ∃ th, s.threads[i]? = some th ∧ Move s i th t := by
  unfold step at taken
  cases found : s.threads[i]? with
  | none => simp only [found, reduceCtorEq] at taken
  | some th =>
    simp only [found] at taken
    refine ⟨th, rfl, ?_⟩
    cases active : th.active with
    | none =>
      cases next : th.todo with
      | nil => simp only [active, next, reduceCtorEq] at taken
      | cons call todo =>
        simp only [active, next, Option.some.injEq] at taken
        exact taken ▸ .begin active next
    | some a =>
      simp only [active, Option.some.injEq] at taken
      rw [← taken]
      have allowed : a.phase.inside = true → a.phase.allows s.mark :=
        fun inside => (inv.holds i a ((active_of_found found).trans active) inside).1
      cases phase : a.phase with
      | exchange value => exact exchange_move inv active phase
      | fetchOr => exact fetchOr_move inv active phase
      | write value =>
        simp only [stepCall, phase]
        exact .write active phase
      | release => exact release_move inv found active phase
      | takeBack =>
        simp only [stepCall, phase]
        exact .takeOut active (by rw [phase]; rfl) rfl (fun mark h => by rwa [phase] at h)
          (by rw [phase]; rfl) rfl rfl
      | swap hand =>
        rw [phase] at allowed
        simp only [stepCall, phase]
        exact .leave active (by rw [phase]; rfl) (by rw [phase]; rfl) ⟨nofun, nofun⟩
          (iff_of_true rfl (allowed rfl))
      | takeOut =>
        simp only [stepCall, phase]
        exact .takeOut active (by rw [phase]; rfl) rfl (fun mark h => by rwa [phase] at h)
          (by rw [phase]; rfl) rfl rfl
      | fetchAnd hand =>
        rw [phase] at allowed
        have marked : s.mark = marking := allowed rfl
        have cleared : s.mark &&& notMarking = idle := by
          rw [marked]
          decide
        have other : s.mark ≠ putting ||| marking := by
          rw [marked]
          decide
        simp only [stepCall, phase, cleared]
        have inside : a.phase.inside = true := by rw [phase]; rfl
        cases hand with
        | none =>
          exact .leave active inside (by rw [phase]; rfl) ⟨nofun, nofun⟩ (iff_of_false nofun other)
        | some v =>
          exact .leave active inside (by rw [phase]; rfl) ⟨nofun, nofun⟩ (iff_of_false nofun other)

end Moves

section Exclusion
variable {s t : State T} {i : Nat} {th : Thread T}

theorem active_set (found : s.threads[i]? = some th) {th' : Thread T} {x : Option (Active T)}
    (threads : t.threads = s.threads.set i th') (now : th'.active = x) (j : Nat) :
    t.active j = if j = i then x else s.active j := by
  have bound := (List.getElem?_eq_some_iff.mp found).1
  simp only [State.active, threads]
  by_cases same : j = i
  · rw [if_pos same, same, List.getElem?_set_self bound]
    exact now
  · rw [if_neg same, List.getElem?_set_ne (Ne.symm same)]

theorem Exclusive.nobody_inside (inv : Exclusive s) (free : s.mark = idle) (j : Nat) (b : Active T)
    (active : s.active j = some b) : b.phase.inside = false := by
  cases inside : b.phase.inside with
  | false => rfl
  | true =>
    have allowed := (inv.holds j b active inside).1
    rw [free] at allowed
    cases phase : b.phase with
    | exchange | fetchOr =>
      rw [phase] at inside
      cases inside
    | write | release | takeBack | swap | takeOut | fetchAnd =>
      rw [phase] at allowed
      exact absurd allowed (by simp only [Phase.allows]; decide)

/-- A thread that was outside and stays outside, with a mark that suits those inside. -/
theorem exclusive_outside (inv : Exclusive s) {x : Option (Active T)}
    (same : ∀ j, t.active j = if j = i then x else s.active j)
    (here : s.active i = th.active) (before : ∀ a, th.active = some a → a.phase.inside = false)
    (after : ∀ a, x = some a → a.phase.inside = false) (holder : t.holder = s.holder)
    (allows : ∀ phase : Phase T, phase.inside = true → phase.allows s.mark → phase.allows t.mark)
    (still : s.mark = idle → t.mark = idle) : Exclusive t := by
  have old : ∀ j b, t.active j = some b → b.phase.inside = true → s.active j = some b := by
    intro j b active inside
    rw [same j] at active
    by_cases mine : j = i
    · rw [if_pos mine] at active
      exact absurd ((after b active).symm.trans inside) nofun
    · rwa [if_neg mine] at active
  constructor
  · intro j k b c first second insideB insideC
    exact inv.alone j k b c (old j b first insideB) (old k c second insideC) insideB insideC
  · intro j b active inside
    have held := inv.holds j b (old j b active inside) inside
    exact ⟨allows b.phase inside held.1, holder.trans held.2⟩
  · intro empty
    refine still (inv.free (fun j b active => ?_))
    by_cases mine : j = i
    · subst mine
      exact before b (here.symm.trans active)
    · exact empty j b ((same j).trans ((if_neg mine).trans active))

/-- A thread that is the only one inside. -/
theorem exclusive_inside {a : Active T}
    (same : ∀ j, t.active j = if j = i then some a else s.active j)
    (others : ∀ j b, j ≠ i → s.active j = some b → b.phase.inside = false)
    (inside : a.phase.inside = true) (allows : a.phase.allows t.mark)
    (holder : t.holder = a.began) : Exclusive t := by
  have only : ∀ j b, t.active j = some b → b.phase.inside = true → j = i ∧ b = a := by
    intro j b active insideB
    rw [same j] at active
    by_cases here : j = i
    · rw [if_pos here] at active
      exact ⟨here, (Option.some.inj active).symm⟩
    · rw [if_neg here] at active
      exact absurd ((others j b here active).symm.trans insideB) nofun
  constructor
  · intro j k b c first second insideB insideC
    exact (only j b first insideB).1.trans (only k c second insideC).1.symm
  · intro j b active insideB
    obtain ⟨-, rfl⟩ := only j b active insideB
    exact ⟨allows, holder⟩
  · intro empty
    have here := empty i a ((same i).trans (if_pos rfl))
    exact absurd (here.symm.trans inside) nofun

theorem step_exclusive (inv : Exclusive s) (taken : step s i = some t) : Exclusive t := by
  obtain ⟨th, found, move⟩ := step_move inv taken
  have here := active_of_found found
  have others : ∀ a, th.active = some a → a.phase.inside = true →
      ∀ j b, j ≠ i → s.active j = some b → b.phase.inside = false := by
    intro a active inside j b other running
    cases inner : b.phase.inside with
    | false => rfl
    | true => exact absurd (inv.alone j i b a running (here.trans active) inner inside) other
  cases move with
  | @begin call todo waits next =>
    refine exclusive_outside inv (active_set found rfl rfl) here (fun a active => ?_) (fun a active => ?_)
      rfl (fun _ _ h => h) id
    · rw [waits] at active
      cases active
    · cases Option.some.inj active
      cases call <;> rfl
  | refuse active outside refused busy =>
    refine exclusive_outside inv (active_set found rfl rfl) here (fun b running => ?_) nofun rfl
      (fun _ _ h => h) id
    cases active.symm.trans running
    exact outside
  | meet active outside put =>
    refine exclusive_outside inv (active_set found rfl rfl)
      here (fun b running => ?_) nofun rfl (fun phase inside allowed => ?_) (fun free => ?_)
    · cases active.symm.trans running
      exact outside
    · rw [put] at allowed
      cases phase with
      | exchange | fetchOr => trivial
      | write | release => exact .inr rfl
      | takeBack | swap | takeOut | fetchAnd =>
        exact absurd allowed (by simp only [Phase.allows]; decide)
    · rw [put] at free
      exact absurd free (by decide)
  | @enter a phase mark active outside free inside allows empty alone =>
    exact exclusive_inside (active_set found rfl rfl)
      (fun j b _ running => inv.nobody_inside free j b running) inside allows rfl
  | @write a value active phase =>
    have inside : a.phase.inside = true := by rw [phase]; rfl
    have held := inv.holds i a (here.trans active) inside
    rw [phase] at held
    exact exclusive_inside (active_set found rfl rfl) (others a active inside) rfl held.1 held.2
  | @detour a active phase met =>
    have inside : a.phase.inside = true := by rw [phase]; rfl
    have held := inv.holds i a (here.trans active) inside
    exact exclusive_inside (active_set found rfl rfl) (others a active inside) rfl met held.2
  | @takeOut a phase active inside still allows empty hand past =>
    have held := inv.holds i a (here.trans active) inside
    exact exclusive_inside (active_set found rfl rfl) (others a active inside) still
      (allows s.mark held.1) held.2
  | @leave a ret active inside gives ends during =>
    have outside : ∀ j b, ({ s with mark := idle }.finish i th a ret none).active j = some b →
        b.phase.inside = false := by
      intro j b running
      rw [active_set found rfl rfl] at running
      by_cases mine : j = i
      · rw [if_pos mine] at running
        cases running
      · rw [if_neg mine] at running
        exact others a active inside j b mine running
    constructor
    · intro j k b c first second insideB
      exact absurd ((outside j b first).symm.trans insideB) nofun
    · intro j b running insideB
      exact absurd ((outside j b running).symm.trans insideB) nofun
    · exact fun _ => rfl

end Exclusion
end Juggle.St.Marker
