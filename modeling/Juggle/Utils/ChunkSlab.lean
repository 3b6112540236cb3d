import Mathlib.Data.List.Basic
import Juggle.Utils.Usize

/-! The chunked slab of `utils/chunk_slab.rs`. Slots live in chunks of sixteen and
the free list is threaded through the empty slots. Indices of type `usize` are
natural numbers here: a slab with 2^64 slots does not fit in memory. The key type
stays a parameter, since narrow keys do reach the end of their range. -/
namespace Juggle.Utils

def chunkSize : Nat := 16

/-- `addOne` is `self + 1`; it has no value where the addition overflows. -/
class ChunkSlabKey (I : Type) where
  intoIndex : I → Nat
  fromIndex : Nat → I
  maxValue : Nat
  zero : I
  addOne : I → Option I

export ChunkSlabKey (intoIndex fromIndex)

instance : ChunkSlabKey Nat where
  intoIndex k := k
  fromIndex i := i
  maxValue := usizeMax
  zero := 0
  addOne k := some (k + 1)

inductive Entry (I T : Type) where
  | empty (next : I)
  | full (val : T)

/-- Sixteen slots; the length is part of the type as in the source's array. -/
structure Chunk (I T : Type) where
  data : List (Entry I T)
  size : data.length = chunkSize

structure ChunkSlab (I T : Type) where
  entries : List (Chunk I T)
  len : Nat
  next : I

inductive SlabPanic where
  | sizeOverflow
  | addOverflow
  | outOfBounds
  | unreachable
  deriving DecidableEq

namespace Chunk
variable {I T : Type}

/-- `data[key % CHUNK_SIZE]`, which is always in bounds. -/
def slot (c : Chunk I T) (i : Nat) : Entry I T :=
  c.data.get ⟨i % chunkSize, by rw [c.size]; exact Nat.mod_lt i (by decide)⟩

def setSlot (c : Chunk I T) (i : Nat) (e : Entry I T) : Chunk I T where
  data := c.data.set (i % chunkSize) e
  size := by rw [List.length_set, c.size]

variable [ChunkSlabKey I]

/-- The loop over `data[1..]`: each slot links to the index after it. -/
def links : Nat → I → List (Entry I T)
  | 0, _ => []
  | n + 1, start =>
    let start := fromIndex (intoIndex start + 1)
    .empty start :: links n start

theorem links_length (n : Nat) (start : I) : (links (T := T) n start).length = n := by
  induction n generalizing start with
  | zero => rfl
  | succ n ih => simp [links, ih]

def init (start : I) (first : T) : Option (Chunk I T) :=
  (ChunkSlabKey.addOne start).map fun start =>
    { data := .full first :: links (chunkSize - 1) start
      size := by simp [links_length, chunkSize] }

end Chunk

namespace ChunkSlab
variable {I T : Type} [ChunkSlabKey I]

def new : ChunkSlab I T := ⟨[], 0, ChunkSlabKey.zero⟩

def capacity (slab : ChunkSlab I T) : Nat := slab.entries.length * chunkSize

def get (slab : ChunkSlab I T) (key : I) : Option T :=
  match slab.entries[intoIndex key / chunkSize]? with
  | some chunk =>
    match chunk.slot (intoIndex key) with
    | .full data => some data
    | .empty _ => none
  | none => none

def setEntry (slab : ChunkSlab I T) (i : Nat) (e : Entry I T) : ChunkSlab I T :=
  { slab with entries := slab.entries.modify (i / chunkSize) (fun c => c.setSlot i e) }

/-- The result is the key or the panic; the slab is the one the call leaves behind. -/
def insert (slab : ChunkSlab I T) (val : T) : Except SlabPanic I × ChunkSlab I T :=
  if ChunkSlabKey.maxValue I ≠ usizeMax ∧ slab.len - 1 = ChunkSlabKey.maxValue I then
    (.error .sizeOverflow, slab)
  else
    let key := slab.next
    let slab := { slab with len := slab.len + 1 }
    if intoIndex key = slab.entries.length * chunkSize then
      match Chunk.init key val with
      | none => (.error .addOverflow, slab)
      | some chunk =>
        let slab := { slab with entries := slab.entries ++ [chunk] }
        match ChunkSlabKey.addOne key with
        | none => (.error .addOverflow, slab)
        | some next => (.ok key, { slab with next := next })
    else
      match slab.entries[intoIndex key / chunkSize]? with
      | none => (.error .outOfBounds, slab)
      | some chunk =>
        let slab := slab.setEntry (intoIndex key) (.full val)
        match chunk.slot (intoIndex key) with
        | .empty next => (.ok key, { slab with next := next })
        | .full _ => (.error .unreachable, slab)

def remove (slab : ChunkSlab I T) (key : I) : Option T × ChunkSlab I T :=
  match slab.entries[intoIndex key / chunkSize]? with
  | none => (none, slab)
  | some chunk =>
    match chunk.slot (intoIndex key) with
    | .full val =>
      (some val, { slab.setEntry (intoIndex key) (.empty slab.next) with
        len := slab.len - 1, next := key })
    -- the entry was empty, the replaced slot is put back
    | .empty _ => (none, slab)

def clear (_ : ChunkSlab I T) : ChunkSlab I T := ⟨[], 0, ChunkSlabKey.zero⟩

/-- The value behind the reference, and the slab after a write through it. -/
def getMut (slab : ChunkSlab I T) (key : I) : Option (T × (T → ChunkSlab I T)) :=
  match slab.entries[intoIndex key / chunkSize]? with
  | some chunk =>
    match chunk.slot (intoIndex key) with
    | .full data => some (data, fun val => slab.setEntry (intoIndex key) (.full val))
    | .empty _ => none
  | none => none

def iter (slab : ChunkSlab I T) : List (I × T) :=
  (slab.entries.zipIdx.flatMap fun e =>
    let off := e.2 * chunkSize
    e.1.data.zipIdx.map fun d => (off + d.2, d.1)).filterMap fun e =>
      match e.2 with
      | .full v => some (fromIndex e.1, v)
      | .empty _ => none

/-- The loop body of `retain` at slot `i` of chunk `ci`. -/
def retainSlot (func : I → T → Bool) (ci : Nat) (slab : ChunkSlab I T) (i : Nat) :
    ChunkSlab I T :=
  let offset := ci * chunkSize
  match slab.entries[ci]? with
  | some chunk =>
    match chunk.slot i with
    | .full value =>
      let key := fromIndex (offset + i)
      if func key value then slab
      else { slab.setEntry (offset + i) (.empty slab.next) with
        len := slab.len - 1, next := key }
    | .empty _ => slab
  | none => slab

/-- The closure is asked once for each key, so its answers are a function of the key
and the value. One that panics is one that keeps every value from there on. -/
def retain (slab : ChunkSlab I T) (func : I → T → Bool) : ChunkSlab I T :=
  (List.range slab.entries.length).foldl
    (fun slab ci => (List.range chunkSize).foldl (retainSlot func ci) slab) slab

/-- Writing through the reference that `get_mut` returns, or through the cells of a
value that `get` returns. -/
def update (slab : ChunkSlab I T) (key : I) (f : T → T) : ChunkSlab I T :=
  match slab.get key with
  | some val => slab.setEntry (intoIndex key) (.full (f val))
  | none => slab

end ChunkSlab
end Juggle.Utils
