import Mathlib.Order.Fin.Basic
import Mathlib.Order.Lattice
import Juggle.Utils.ChunkSlab

/-! The timing group of `utils/timing.rs`, over any type of time counts. -/
namespace Juggle.Utils

abbrev U16 := Fin (2 ^ 16)

structure NonZeroU16 where
  get : Nat
  pos : 0 < get
  fits : get < 2 ^ 16

def NonZeroU16.new (n : U16) : Option NonZeroU16 :=
  if h : 0 < n.val then some ⟨n.val, h, n.isLt⟩ else none

/-- The order of the counts is a parameter beside it. `Sub` is left out: only a branch
behind `&& false` uses it. -/
class TimerCount (C : Type) where
  default : C
  add : C → C → C
  divBy : C → NonZeroU16 → C
  mulBy : C → NonZeroU16 → C

/-- Unsigned counts whose arithmetic never overflows. -/
instance : TimerCount Nat where
  default := 0
  add := (· + ·)
  divBy x n := x / n.get
  mulBy x n := x * n.get

/-- The unsigned types of `impl_count!`. -/
inductive UnsignedCount where
  | u16
  | u32
  | u64
  | u128
  | usize

def UnsignedCount.bits : UnsignedCount → Nat
  | .u16 => 16
  | .u32 => 32
  | .u64 => 64
  | .u128 => 128
  | .usize => 64

abbrev UnsignedCount.Count (t : UnsignedCount) := Fin (2 ^ t.bits)

/-- Arithmetic that wraps, as in a release build. -/
instance (t : UnsignedCount) : TimerCount t.Count where
  default := 0
  add := (· + ·)
  divBy x n := x / Fin.ofNat _ n.get
  mulBy x n := x * Fin.ofNat _ n.get

structure TimeEntry (D : Type) where
  sum : D
  proportion : NonZeroU16

structure TimingGroup (C : Type) where
  info : ChunkSlab Nat (TimeEntry C)
  max : C

/-- Where a call can panic: at an `expect`, an `unwrap` or inside of the slab. -/
inductive GroupPanic where
  | expect (message : String)
  | unwrap
  | slab (p : SlabPanic)
  deriving DecidableEq

namespace TimingGroup
variable {C : Type} [LinearOrder C] [TimerCount C]
open TimerCount (divBy mulBy add)

def getProportional (entry : TimeEntry C) : C := divBy entry.sum entry.proportion

def new : TimingGroup C := ⟨ChunkSlab.new, TimerCount.default⟩

def insert (g : TimingGroup C) (slotCount : U16) : Except GroupPanic Nat × TimingGroup C :=
  match NonZeroU16.new slotCount with
  | none => (.error (.expect "Time slot count is zero."), g)
  | some proportion =>
    match g.info.insert { proportion, sum := TimerCount.default } with
    | (.error p, info) => (.error (.slab p), { g with info })
    | (.ok key, info) => (.ok key, { g with info })

def remove (g : TimingGroup C) (key : Nat) : Except GroupPanic Unit × TimingGroup C :=
  match g.info.remove key with
  | (some _, info) => (.ok (), { g with info })
  | (none, info) =>
    (.error (.expect "Error: unknown key passed to TimingGroup::remove"), { g with info })

def contains (g : TimingGroup C) (key : Nat) : Bool := (g.info.get key).isSome

def count (g : TimingGroup C) : Nat := g.info.len

def getSlotCount (g : TimingGroup C) (key : Nat) : Option Nat :=
  (g.info.get key).map fun v => v.proportion.get

def clear (g : TimingGroup C) : TimingGroup C := ⟨g.info.clear, TimerCount.default⟩

/-- The proportional times of all entries, in the order of the iteration. -/
def times (g : TimingGroup C) : List C := g.info.iter.map fun e => getProportional e.2

def nine : NonZeroU16 := ⟨9, by decide, by decide⟩
def ten : NonZeroU16 := ⟨10, by decide, by decide⟩

def minBound (g : TimingGroup C) : C := divBy (mulBy g.max nine) ten

def canExecute (g : TimingGroup C) (key : Nat) : Except GroupPanic Bool :=
  match g.info.get key with
  | none => .error (.expect "Error: unknown key passed to TimingGroup::can_execute")
  | some this =>
    let thisDur := getProportional this
    if thisDur = g.max ∧ g.times.any (fun t => decide (t ≠ thisDur)) = true then .ok false
    else
      match g.times.min? with
      | none => .error .unwrap
      | some minTime =>
        if minTime ≤ g.minBound then .ok (decide (thisDur ≤ g.minBound)) else .ok true

/-- The minimum is computed and not used: what follows it stands behind `&& false`. -/
def updateDuration (g : TimingGroup C) (key : Nat) (dur : C) :
    Except GroupPanic Unit × TimingGroup C :=
  match g.info.getMut key with
  | none => (.error (.expect "Error: unknown key passed to TimingGroup::update_duration"), g)
  | some (this, put) =>
    let this := { this with sum := add this.sum dur }
    let g : TimingGroup C := { info := put this, max := Max.max g.max (getProportional this) }
    match g.times.min? with
    | none => (.error .unwrap, g)
    | some _ => (.ok (), g)

/-- The calls that change a group. -/
inductive Op (C : Type) where
  | insert (slotCount : U16)
  | remove (key : Nat)
  | clear
  | updateDuration (key : Nat) (dur : C)

/-- The answer is the key where there is one; a panic leaves a group behind, too. -/
def call (g : TimingGroup C) : Op C → Except GroupPanic (Option Nat) × TimingGroup C
  | .insert slotCount => let r := g.insert slotCount; (r.1.map some, r.2)
  | .remove key => let r := g.remove key; (r.1.map fun _ => none, r.2)
  | .clear => (.ok none, g.clear)
  | .updateDuration key dur => let r := g.updateDuration key dur; (r.1.map fun _ => none, r.2)

/-- One call in the history of a group; the history goes on after a caught panic. -/
def step (g : TimingGroup C) (op : Op C) : Option (TimingGroup C) := some (g.call op).2

end TimingGroup
end Juggle.Utils
