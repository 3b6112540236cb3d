import Mathlib.Data.List.Nodup
import Juggle.Lib.Count
import Juggle.Utils.ChunkSlab

/-! The free list of a chunked slab and the finite map it stands for. The slots of
all chunks are read as one list; a slab is well formed when the list threaded from
`next` visits every empty slot exactly once and ends one past the last chunk. -/
namespace Juggle.Utils
open Juggle.Count

/-- What the four implementations of `ChunkSlabKey` have in common. An index is
named when a key stands for it; chunks are never cut by the end of the key space. -/
class LawfulSlabKey (I : Type) [ChunkSlabKey I] : Prop where
  fromInto : ∀ k : I, fromIndex (intoIndex k) = k
  zeroNamed : intoIndex (ChunkSlabKey.zero : I) = 0
  namedBelow : ∀ i j : Nat, i ≤ j → intoIndex (fromIndex j : I) = j → intoIndex (fromIndex i : I) = i
  addOne : ∀ k : I, intoIndex (fromIndex (intoIndex k + 1) : I) = intoIndex k + 1 →
    ChunkSlabKey.addOne k = some (fromIndex (intoIndex k + 1))
  namedChunk : ∀ c : Nat, intoIndex (fromIndex (c * chunkSize) : I) = c * chunkSize →
    intoIndex (fromIndex (c * chunkSize + (chunkSize - 1)) : I) = c * chunkSize + (chunkSize - 1)
  fullIff : ∀ n : Nat, (∀ i < n, intoIndex (fromIndex i : I) = i) →
    (intoIndex (fromIndex n : I) ≠ n ↔
      ChunkSlabKey.maxValue I ≠ usizeMax ∧ n - 1 = ChunkSlabKey.maxValue I)

instance : LawfulSlabKey Nat where
  fromInto _ := rfl
  zeroNamed := rfl
  namedBelow _ _ _ _ := rfl
  addOne _ _ := rfl
  namedChunk _ _ := rfl
  fullIff _ _ := by simp [intoIndex, fromIndex, ChunkSlabKey.maxValue]

def Named (I : Type) [ChunkSlabKey I] (i : Nat) : Prop := intoIndex (fromIndex i : I) = i

namespace Entry
variable {I T : Type}

def val? : Entry I T → Option T
  | .full v => some v
  | .empty _ => none

def holds (p : T → Bool) : Entry I T → Bool
  | .full v => p v
  | .empty _ => false

end Entry

section Cells
variable {I T : Type}

/-- All slots in index order. -/
def cells (chunks : List (Chunk I T)) : List (Entry I T) := chunks.flatMap Chunk.data

theorem length_cells (chunks : List (Chunk I T)) :
    (cells chunks).length = chunks.length * chunkSize := by
  induction chunks with
  | nil => simp [cells]
  | cons c cs ih =>
    have hc := c.size
    simp only [cells, List.flatMap_cons, List.length_append, List.length_cons] at ih ⊢
    rw [ih, hc, Nat.succ_mul, Nat.add_comm]

theorem Chunk.getElem?_data (c : Chunk I T) {i : Nat} (h : i < chunkSize) :
    c.data[i]? = some (c.slot i) := by
  have size := c.size
  have small : i % chunkSize = i := Nat.mod_eq_of_lt h
  simp [Chunk.slot, small, size, h]

theorem Chunk.slot_sub (c : Chunk I T) {i : Nat} (h : chunkSize ≤ i) :
    c.slot (i - chunkSize) = c.slot i := by
  have same : (i - chunkSize) % chunkSize = i % chunkSize := (Nat.mod_eq_sub_mod h).symm
  simp [Chunk.slot, same]

theorem div_chunk {i : Nat} (h : chunkSize ≤ i) :
    i / chunkSize = (i - chunkSize) / chunkSize + 1 :=
  Nat.div_eq_sub_div (by decide) h

theorem getElem?_cells (chunks : List (Chunk I T)) (i : Nat) :
    (cells chunks)[i]? = (chunks[i / chunkSize]?).map (fun c => c.slot i) := by
  induction chunks generalizing i with
  | nil => simp [cells]
  | cons c cs ih =>
    have size := c.size
    by_cases low : i < chunkSize
    · have zero : i / chunkSize = 0 := Nat.div_eq_of_lt low
      simp only [cells, List.flatMap_cons, List.getElem?_append, size, low, if_true, zero,
        c.getElem?_data low, List.getElem?_cons_zero, Option.map_some]
    · have high : chunkSize ≤ i := Nat.le_of_not_lt low
      have tail := ih (i - chunkSize)
      simp only [cells] at tail
      simp only [cells, List.flatMap_cons, List.getElem?_append, size, low, if_false, tail,
        div_chunk high, List.getElem?_cons_succ]
      cases cs[(i - chunkSize) / chunkSize]? with
      | none => rfl
      | some d => simp [d.slot_sub high]

theorem cells_modify (chunks : List (Chunk I T)) (i : Nat) (e : Entry I T) :
    cells (chunks.modify (i / chunkSize) (fun c => c.setSlot i e)) = (cells chunks).set i e := by
  induction chunks generalizing i with
  | nil => simp [cells]
  | cons c cs ih =>
    have size := c.size
    by_cases low : i < chunkSize
    · have zero : i / chunkSize = 0 := Nat.div_eq_of_lt low
      have small : i % chunkSize = i := Nat.mod_eq_of_lt low
      simp [cells, zero, Chunk.setSlot, small, size, low]
    · have high : chunkSize ≤ i := Nat.le_of_not_lt low
      have tail := ih (i - chunkSize)
      have shift : (fun d : Chunk I T => d.setSlot (i - chunkSize) e) = fun d => d.setSlot i e := by
        funext d
        have : (i - chunkSize) % chunkSize = i % chunkSize := (Nat.mod_eq_sub_mod high).symm
        simp [Chunk.setSlot, this]
      rw [shift] at tail
      simp only [cells] at tail ⊢
      rw [div_chunk high, List.modify_succ_cons, List.flatMap_cons, List.flatMap_cons, tail,
        List.set_append, size, if_neg low]

end Cells

namespace ChunkSlab
variable {I T : Type} [ChunkSlabKey I]

/-- Following the links from a key visits the listed empty slots and stops at the
key of the first index past the last chunk. -/
def FreeChain (slots : List (Entry I T)) : I → List I → Prop
  | k, [] => k = fromIndex slots.length
  | k, j :: js => k = j ∧ ∃ next, slots[intoIndex j]? = some (.empty next) ∧ FreeChain slots next js

def slots (slab : ChunkSlab I T) : List (Entry I T) := cells slab.entries

/-- The number of live values with a property. -/
def count (slab : ChunkSlab I T) (p : T → Bool) : Nat := slab.slots.countP (Entry.holds p)

structure WellFormed (slab : ChunkSlab I T) : Prop where
  named : ∀ i < slab.slots.length, Named I i
  free : ∃ ks, FreeChain slab.slots slab.next ks ∧ ks.Nodup ∧
    ∀ k next, slab.slots[intoIndex k]? = some (.empty next) → k ∈ ks
  len : slab.len = slab.count (fun _ => true)

omit [ChunkSlabKey I] in
theorem capacity_eq (slab : ChunkSlab I T) : slab.capacity = slab.slots.length :=
  (length_cells slab.entries).symm

theorem get_eq (slab : ChunkSlab I T) (k : I) :
    slab.get k = (slab.slots[intoIndex k]?).bind Entry.val? := by
  unfold get slots
  rw [getElem?_cells]
  cases slab.entries[intoIndex k / chunkSize]? with
  | none => rfl
  | some chunk =>
    simp only [Option.map_some, Option.bind_some]
    cases chunk.slot (intoIndex k) <;> rfl

theorem get_some_iff (slab : ChunkSlab I T) (k : I) (v : T) :
    slab.get k = some v ↔ slab.slots[intoIndex k]? = some (.full v) := by
  rw [get_eq]
  cases slab.slots[intoIndex k]? with
  | none => simp
  | some e => cases e <;> simp [Entry.val?]

omit [ChunkSlabKey I] in
@[simp] theorem slots_setEntry (slab : ChunkSlab I T) (i : Nat) (e : Entry I T) :
    (slab.setEntry i e).slots = slab.slots.set i e := cells_modify slab.entries i e

theorem get_lt_capacity {slab : ChunkSlab I T} {k : I} {v : T} (h : slab.get k = some v) :
    intoIndex k < slab.capacity := by
  rw [capacity_eq]
  exact (List.getElem?_eq_some_iff.mp ((get_some_iff slab k v).mp h)).1

/-- Overwriting a slot outside of the chain leaves the chain in place. -/
theorem freeChain_set {slots : List (Entry I T)} {i : Nat} {e : Entry I T} {k : I} {ks : List I}
    (chain : FreeChain slots k ks) (outside : ∀ j ∈ ks, intoIndex j ≠ i) :
    FreeChain (slots.set i e) k ks := by
  induction ks generalizing k with
  | nil => simpa [FreeChain] using chain
  | cons j js ih =>
    obtain ⟨rfl, next, slot, rest⟩ := chain
    refine ⟨rfl, next, ?_, ih rest (fun j' hj' => outside j' (List.mem_cons_of_mem _ hj'))⟩
    rw [List.getElem?_set_ne (Ne.symm (outside k List.mem_cons_self))]
    exact slot

theorem freeChain_mem {slots : List (Entry I T)} {k j : I} {ks : List I}
    (chain : FreeChain slots k ks) (member : j ∈ ks) :
    ∃ next, slots[intoIndex j]? = some (.empty next) := by
  induction ks generalizing k with
  | nil => cases member
  | cons i is ih =>
    obtain ⟨rfl, next, slot, rest⟩ := chain
    rcases List.mem_cons.mp member with rfl | member
    · exact ⟨next, slot⟩
    · exact ih rest member

theorem count_eq_zero_iff {slab : ChunkSlab I T} (wf : WellFormed slab) (p : T → Bool) :
    slab.count p = 0 ↔ ∀ k v, slab.get k = some v → p v = false := by
  simp only [count, List.countP_eq_zero]
  constructor
  · intro h k v hv
    have := h (.full v) (List.mem_of_getElem? ((get_some_iff slab k v).mp hv))
    simpa [Entry.holds] using this
  · intro h e he
    obtain ⟨i, hi⟩ := List.mem_iff_getElem?.mp he
    have bound := (List.getElem?_eq_some_iff.mp hi).1
    have name := wf.named i bound
    cases e with
    | empty next => simp [Entry.holds]
    | full v =>
      have := h (fromIndex i) v ((get_some_iff slab _ v).mpr (by rw [name]; exact hi))
      simp [Entry.holds, this]

/-- All live values have the property exactly when they make up the whole length. -/
theorem count_eq_len_iff {slab : ChunkSlab I T} (wf : WellFormed slab) (p : T → Bool) :
    slab.len = slab.count p ↔ ∀ k v, slab.get k = some v → p v = true := by
  rw [wf.len, eq_comm, count, count, Juggle.Count.countP_eq_iff_of_imp]
  · constructor
    · intro h k v hv
      exact h (.full v) (List.mem_of_getElem? ((get_some_iff slab k v).mp hv)) rfl
    · intro h e he hq
      obtain ⟨i, hi⟩ := List.mem_iff_getElem?.mp he
      have name := wf.named i (List.getElem?_eq_some_iff.mp hi).1
      cases e with
      | empty next => simp [Entry.holds] at hq
      | full v => exact h (fromIndex i) v ((get_some_iff slab _ v).mpr (by rw [name]; exact hi))
  · intro e _ he
    cases e with
    | empty next => simp [Entry.holds] at he
    | full v => rfl

omit [ChunkSlabKey I] in
theorem empty_of_set_full {slots : List (Entry I T)} {i j : Nat} {v : T} {next : I}
    (h : (slots.set i (.full v))[j]? = some (.empty next)) :
    slots[j]? = some (.empty next) ∧ j ≠ i := by
  rw [List.getElem?_set] at h
  by_cases same : i = j
  · by_cases bound : i < slots.length <;> simp [same, same ▸ bound] at h
  · rw [if_neg same] at h
    exact ⟨h, Ne.symm same⟩

omit [ChunkSlabKey I] in
theorem chunk_of_slot {slab : ChunkSlab I T} {i : Nat} {e : Entry I T}
    (h : slab.slots[i]? = some e) :
    ∃ chunk, slab.entries[i / chunkSize]? = some chunk ∧ chunk.slot i = e := by
  rw [slots, getElem?_cells] at h
  exact Option.map_eq_some_iff.mp h

omit [ChunkSlabKey I] in
theorem count_setEntry (slab : ChunkSlab I T) (p : T → Bool) {i : Nat} {old : Entry I T}
    (new : Entry I T) (h : slab.slots[i]? = some old) :
    (slab.setEntry i new).count p + weight (old.holds p) = slab.count p + weight (new.holds p) := by
  rw [count, count, slots_setEntry]
  exact countP_set_weight _ _ h

theorem len_le_capacity {slab : ChunkSlab I T} (wf : WellFormed slab) :
    slab.len ≤ slab.slots.length := wf.len ▸ List.countP_le_length

theorem get_setEntry_full (slab : ChunkSlab I T) {k : I} {old : Entry I T} (v : T)
    (h : slab.slots[intoIndex k]? = some old) :
    (slab.setEntry (intoIndex k) (.full v)).get k = some v := by
  have bound := (List.getElem?_eq_some_iff.mp h).1
  rw [get_some_iff, slots_setEntry, List.getElem?_set_self bound]

theorem get_setEntry_empty (slab : ChunkSlab I T) (k next : I) :
    (slab.setEntry (intoIndex k) (.empty next)).get k = none := by
  rw [get_eq, slots_setEntry, List.getElem?_set]
  simp only [if_true]
  split <;> rfl

section Operations
variable [LawfulSlabKey I]

theorem intoIndex_injective {j k : I} (h : intoIndex j = intoIndex k) : j = k := by
  rw [← LawfulSlabKey.fromInto j, h, LawfulSlabKey.fromInto]

theorem new_wellFormed : WellFormed (new : ChunkSlab I T) where
  named i hi := by simp [slots, cells, new] at hi
  free := by
    refine ⟨[], ?_, List.nodup_nil, ?_⟩
    · have := LawfulSlabKey.fromInto (ChunkSlabKey.zero : I)
      rw [LawfulSlabKey.zeroNamed] at this
      simp [FreeChain, slots, cells, new, this]
    · simp [slots, cells, new]
  len := by simp [slots, cells, new, count]

theorem get_setEntry_other (slab : ChunkSlab I T) {j k : I} (e : Entry I T) (other : j ≠ k) :
    (slab.setEntry (intoIndex k) e).get j = slab.get j := by
  have : intoIndex k ≠ intoIndex j := fun h => other (intoIndex_injective h).symm
  rw [get_eq, get_eq, slots_setEntry, List.getElem?_set_ne this]

omit [LawfulSlabKey I] in
theorem update_some {slab : ChunkSlab I T} {k : I} {v : T} (f : T → T) (h : slab.get k = some v) :
    slab.update k f = slab.setEntry (intoIndex k) (.full (f v)) := by
  simp only [update, h]

omit [LawfulSlabKey I] in
theorem update_none {slab : ChunkSlab I T} {k : I} (f : T → T) (h : slab.get k = none) :
    slab.update k f = slab := by
  simp only [update, h]

omit [LawfulSlabKey I] in
theorem count_update {slab : ChunkSlab I T} (p : T → Bool) {k : I} {v : T} (f : T → T)
    (h : slab.get k = some v) :
    (slab.update k f).count p + weight (p v) = slab.count p + weight (p (f v)) := by
  rw [update_some f h]
  exact count_setEntry slab p (.full (f v)) ((get_some_iff slab k v).mp h)

omit [LawfulSlabKey I] in
/-- An update that no value notices through `p` leaves the count alone. -/
theorem count_update_same (slab : ChunkSlab I T) (p : T → Bool) (k : I) {f : T → T}
    (blind : ∀ v, p (f v) = p v) : (slab.update k f).count p = slab.count p := by
  cases hv : slab.get k with
  | none => rw [update_none f hv]
  | some v =>
    have total := count_update p f hv
    rw [blind v] at total
    exact Nat.add_right_cancel total

omit [LawfulSlabKey I] in
@[simp] theorem len_update (slab : ChunkSlab I T) (k : I) (f : T → T) :
    (slab.update k f).len = slab.len := by
  unfold update
  split <;> rfl

omit [LawfulSlabKey I] in
@[simp] theorem capacity_update (slab : ChunkSlab I T) (k : I) (f : T → T) :
    (slab.update k f).capacity = slab.capacity := by
  unfold update
  split
  · simp [capacity_eq]
  · rfl

omit [LawfulSlabKey I] in
theorem get_update_self (slab : ChunkSlab I T) (k : I) (f : T → T) :
    (slab.update k f).get k = (slab.get k).map f := by
  cases hv : slab.get k with
  | none => simpa [update_none f hv] using hv
  | some v =>
    rw [update_some f hv]
    exact get_setEntry_full slab _ ((get_some_iff slab k v).mp hv)

theorem get_update_other (slab : ChunkSlab I T) {j k : I} (f : T → T) (other : j ≠ k) :
    (slab.update k f).get j = slab.get j := by
  cases hv : slab.get k with
  | none => rw [update_none f hv]
  | some v =>
    rw [update_some f hv]
    exact get_setEntry_other slab _ other

omit [LawfulSlabKey I] in
theorem update_wellFormed {slab : ChunkSlab I T} (wf : WellFormed slab) (k : I) (f : T → T) :
    WellFormed (slab.update k f) := by
  cases hv : slab.get k with
  | none => rwa [update_none f hv]
  | some v =>
    have slot := (get_some_iff slab k v).mp hv
    have total := count_update (fun _ => true) f hv
    obtain ⟨ks, chain, nodup, all⟩ := wf.free
    rw [update_some f hv] at total ⊢
    refine ⟨?_, ⟨ks, ?_, nodup, ?_⟩, ?_⟩
    · simpa using wf.named
    · rw [slots_setEntry]
      refine freeChain_set chain (fun j hj same => ?_)
      obtain ⟨next, empty⟩ := freeChain_mem chain hj
      rw [same, slot] at empty
      cases empty
    · intro j next hj
      rw [slots_setEntry] at hj
      exact all j next (empty_of_set_full hj).1
    · have := wf.len
      change slab.len = _
      omega

omit [LawfulSlabKey I] in
theorem remove_none {slab : ChunkSlab I T} {k : I} (h : slab.get k = none) :
    slab.remove k = (none, slab) := by
  rw [get_eq, slots, getElem?_cells] at h
  unfold remove
  cases hc : slab.entries[intoIndex k / chunkSize]? with
  | none => rfl
  | some chunk =>
    simp only [hc, Option.map_some, Option.bind_some] at h
    cases hs : chunk.slot (intoIndex k) with
    | empty next => simp [hs]
    | full v => simp [hs, Entry.val?] at h

/-- What a successful removal leaves behind. -/
structure Removed (slab : ChunkSlab I T) (k : I) (v : T) (after : ChunkSlab I T) : Prop where
  wf : WellFormed after
  gone : after.get k = none
  others : ∀ j, j ≠ k → after.get j = slab.get j
  len : after.len + 1 = slab.len
  capacity : after.capacity = slab.capacity
  count : ∀ p, after.count p + weight (p v) = slab.count p

theorem remove_some {slab : ChunkSlab I T} (wf : WellFormed slab) {k : I} {v : T}
    (h : slab.get k = some v) :
    ∃ after, slab.remove k = (some v, after) ∧ Removed slab k v after := by
  have slot := (get_some_iff slab k v).mp h
  obtain ⟨chunk, hc, hs⟩ := chunk_of_slot slot
  obtain ⟨ks, chain, nodup, all⟩ := wf.free
  let after : ChunkSlab I T :=
    { slab.setEntry (intoIndex k) (.empty slab.next) with len := slab.len - 1, next := k }
  have slots_after : after.slots = slab.slots.set (intoIndex k) (.empty slab.next) :=
    slots_setEntry slab _ _
  have bound := (List.getElem?_eq_some_iff.mp slot).1
  have fresh : ∀ j ∈ ks, intoIndex j ≠ intoIndex k := by
    intro j hj same
    obtain ⟨next, empty⟩ := freeChain_mem chain hj
    rw [same, slot] at empty
    cases empty
  have counts : ∀ p, after.count p + weight (p v) = slab.count p := by
    intro p
    have := count_setEntry slab p (.empty slab.next) slot
    rwa [Entry.holds, Entry.holds, weight_false, Nat.add_zero] at this
  have total := counts (fun _ => true)
  rw [← wf.len, weight_true] at total
  refine ⟨after, by simp [remove, hc, hs, after], ?_, ?_, ?_, ?_, ?_, counts⟩
  · refine ⟨?_, ⟨k :: ks, ⟨rfl, slab.next, ?_, ?_⟩, ?_, ?_⟩, ?_⟩
    · rw [slots_after]
      simpa using wf.named
    · rw [slots_after, List.getElem?_set_self bound]
    · rw [slots_after]
      exact freeChain_set chain fresh
    · exact List.nodup_cons.mpr ⟨fun member => fresh k member rfl, nodup⟩
    · intro j next hj
      by_cases same : j = k
      · exact same ▸ List.mem_cons_self
      · have : intoIndex k ≠ intoIndex j := fun e => same (intoIndex_injective e).symm
        rw [slots_after, List.getElem?_set_ne this] at hj
        exact List.mem_cons_of_mem k (all j next hj)
    · change slab.len - 1 = after.count (fun _ => true)
      omega
  · exact get_setEntry_empty slab k slab.next
  · exact fun j other => get_setEntry_other slab _ other
  · change slab.len - 1 + 1 = slab.len
    omega
  · rw [capacity_eq, capacity_eq, slots_after, List.length_set]

/-- What a successful insertion leaves behind. -/
structure Inserted (slab : ChunkSlab I T) (v : T) (k : I) (after : ChunkSlab I T) : Prop where
  wf : WellFormed after
  fresh : slab.get k = none
  bound : after.get k = some v
  others : ∀ j, j ≠ k → after.get j = slab.get j
  len : after.len = slab.len + 1
  capacity : slab.capacity ≤ after.capacity
  count : ∀ p, after.count p = slab.count p + weight (p v)

/-- No size overflow is reported while the number of live values is a named index. -/
theorem insert_unchecked {slab : ChunkSlab I T} (wf : WellFormed slab)
    (room : Named I slab.len) :
    ¬ (ChunkSlabKey.maxValue I ≠ usizeMax ∧ slab.len - 1 = ChunkSlabKey.maxValue I) := by
  have below : ∀ i < slab.len, intoIndex (fromIndex i : I) = i :=
    fun i hi => wf.named i (Nat.lt_of_lt_of_le hi (len_le_capacity wf))
  intro full
  exact (LawfulSlabKey.fullIff slab.len below).mpr full room

theorem insert_reuse {slab : ChunkSlab I T} (wf : WellFormed slab) (v : T) (room : Named I slab.len)
    {k : I} {ks : List I} (chain : FreeChain slab.slots slab.next (k :: ks)) (nodup : (k :: ks).Nodup)
    (all : ∀ j next, slab.slots[intoIndex j]? = some (.empty next) → j ∈ k :: ks) :
    ∃ after, slab.insert v = (.ok k, after) ∧ Inserted slab v k after := by
  obtain ⟨head, next, slot, rest⟩ := chain
  obtain ⟨chunk, hc, hs⟩ := chunk_of_slot slot
  have bound := (List.getElem?_eq_some_iff.mp slot).1
  have inside : intoIndex slab.next ≠ slab.entries.length * chunkSize := by
    rw [head, ← length_cells slab.entries]
    exact Nat.ne_of_lt bound
  let after : ChunkSlab I T :=
    { slab.setEntry (intoIndex k) (.full v) with len := slab.len + 1, next := next }
  have slots_after : after.slots = slab.slots.set (intoIndex k) (.full v) := slots_setEntry slab _ _
  have counts : ∀ p, after.count p = slab.count p + weight (p v) := by
    intro p
    have := count_setEntry slab p (.full v) slot
    rwa [Entry.holds, Entry.holds, weight_false, Nat.add_zero] at this
  have total := counts (fun _ => true)
  rw [← wf.len, weight_true] at total
  refine ⟨after, ?_, ⟨?_, ⟨ks, ?_, (List.nodup_cons.mp nodup).2, ?_⟩, total.symm⟩, ?_, ?_, ?_, rfl,
    ?_, counts⟩
  · have checked := insert_unchecked wf room
    subst head
    simp only [insert, if_neg checked, if_neg inside, hc, hs]
    rfl
  · rw [slots_after]
    simpa using wf.named
  · rw [slots_after]
    refine freeChain_set rest (fun j hj same => ?_)
    exact (List.nodup_cons.mp nodup).1 (intoIndex_injective same ▸ hj)
  · intro j link hj
    rw [slots_after] at hj
    obtain ⟨before, other⟩ := empty_of_set_full hj
    exact (List.mem_cons.mp (all j link before)).resolve_left (fun same => other (same ▸ rfl))
  · rw [get_eq, slot]
    rfl
  · exact get_setEntry_full slab v slot
  · exact fun j other => get_setEntry_other slab _ other
  · exact Nat.le_of_eq (by rw [capacity_eq, capacity_eq, slots_after, List.length_set])

omit [LawfulSlabKey I] in
/-- The links of a fresh chunk name consecutive indices. -/
theorem links_eq (n b : Nat) (named : ∀ j < n, Named I (b + j)) :
    Chunk.links (T := T) n (fromIndex b : I) =
      (List.range' (b + 1) n).map (fun i => .empty (fromIndex i)) := by
  induction n generalizing b with
  | zero => rfl
  | succ n ih =>
    have here : intoIndex (fromIndex b : I) = b := named 0 (Nat.succ_pos n)
    have later : ∀ j < n, Named I (b + 1 + j) := by
      intro j hj
      have := named (j + 1) (by omega)
      rwa [Nat.add_assoc, Nat.add_comm 1 j]
    rw [Chunk.links, here, ih (b + 1) later, List.range'_succ, List.map_cons]

omit [LawfulSlabKey I] in
theorem freeChain_range {slots : List (Entry I T)} (n a : Nat) (stop : a + n = slots.length)
    (named : ∀ i, a ≤ i → i < a + n → Named I i)
    (linked : ∀ i, a ≤ i → i < a + n → slots[i]? = some (.empty (fromIndex (i + 1)))) :
    FreeChain slots (fromIndex a) ((List.range' a n).map fromIndex) := by
  induction n generalizing a with
  | zero => simp [FreeChain, ← stop]
  | succ n ih =>
    rw [List.range'_succ, List.map_cons]
    refine ⟨rfl, fromIndex (a + 1), ?_, ih (a + 1) (by omega) ?_ ?_⟩
    · have here : intoIndex (fromIndex a : I) = a := named a (Nat.le_refl a) (by omega)
      rw [here]
      exact linked a (Nat.le_refl a) (by omega)
    · exact fun i lo hi => named i (by omega) (by omega)
    · exact fun i lo hi => linked i (by omega) (by omega)

omit [LawfulSlabKey I] in
/-- A slab with an empty free list has no empty slot. -/
theorem all_full {slab : ChunkSlab I T} (wf : WellFormed slab)
    (all : ∀ (j next : I), slab.slots[intoIndex j]? ≠ some (.empty next)) :
    slab.len = slab.slots.length := by
  rw [wf.len, count, List.countP_eq_length]
  intro e he
  obtain ⟨i, hi⟩ := List.mem_iff_getElem?.mp he
  have name := wf.named i (List.getElem?_eq_some_iff.mp hi).1
  cases e with
  | empty next => exact absurd (by rw [name]; exact hi) (all (fromIndex i) next)
  | full v => rfl

/-- The slots of a chunk pushed when every index below `b` is taken. -/
def freshSlots (b : Nat) (v : T) : List (Entry I T) :=
  .full v :: (List.range' (b + 2) (chunkSize - 1)).map (fun i => .empty (fromIndex i))

theorem init_spec {k : I} {b : Nat} (v : T) (here : intoIndex k = b)
    (named : ∀ i < b + chunkSize, Named I i) :
    ChunkSlabKey.addOne k = some (fromIndex (b + 1)) ∧
      ∃ chunk : Chunk I T, Chunk.init k v = some chunk ∧ chunk.data = freshSlots b v := by
  have second : ChunkSlabKey.addOne k = some (fromIndex (b + 1)) := by
    rw [← here]
    exact LawfulSlabKey.addOne k (by rw [here]; exact named _ (Nat.add_lt_add_left (by decide) b))
  refine ⟨second, _, by rw [Chunk.init, second]; rfl, ?_⟩
  change _ :: Chunk.links _ _ = _
  rw [links_eq _ _ (fun j hj => named _ (by omega))]
  rfl

omit [LawfulSlabKey I] in
theorem freshSlots_linked (slots : List (Entry I T)) (v : T) {i : Nat}
    (above : slots.length < i) (below : i < slots.length + chunkSize) :
    (slots ++ freshSlots slots.length v)[i]? = some (.empty (fromIndex (i + 1))) := by
  obtain ⟨d, rfl⟩ := Nat.exists_eq_add_of_le (Nat.succ_le_of_lt above)
  have index : slots.length + 1 + d - slots.length = d + 1 := by omega
  have small : d < chunkSize - 1 := by omega
  have shift : slots.length + 2 + 1 * d = slots.length + 1 + d + 1 := by omega
  rw [List.getElem?_append_right (by omega), index, freshSlots, List.getElem?_cons_succ,
    List.getElem?_map, List.getElem?_range' small, shift]
  rfl

omit [LawfulSlabKey I] in
theorem freshSlots_full (slots : List (Entry I T)) (v : T) :
    (slots ++ freshSlots slots.length v)[slots.length]? = some (.full v) := by
  rw [List.getElem?_append_right (Nat.le_refl _), Nat.sub_self]
  rfl

omit [LawfulSlabKey I] in
theorem length_freshSlots (b : Nat) (v : T) :
    (freshSlots b v : List (Entry I T)).length = chunkSize := by
  simp [freshSlots, chunkSize]

omit [LawfulSlabKey I] in
theorem countP_freshSlots (b : Nat) (v : T) (p : T → Bool) :
    (freshSlots b v : List (Entry I T)).countP (Entry.holds p) = weight (p v) := by
  have links : ((List.range' (b + 2) (chunkSize - 1)).map
      (fun i => (Entry.empty (fromIndex i) : Entry I T))).countP (Entry.holds p) = 0 := by
    simp [List.countP_eq_zero, Entry.holds]
  rw [freshSlots, List.countP_cons, links, Nat.zero_add]
  rfl

/-- A full slab with a fresh chunk behind it, its free list running through the chunk. -/
theorem grown_wellFormed {slab after : ChunkSlab I T} (wf : WellFormed slab) (v : T)
    (named : ∀ i < slab.slots.length + chunkSize, Named I i)
    (none_empty : ∀ j next : I, slab.slots[intoIndex j]? ≠ some (.empty next))
    (slots_after : after.slots = slab.slots ++ freshSlots slab.slots.length v)
    (next_after : after.next = fromIndex (slab.slots.length + 1))
    (len_after : after.len = slab.len + 1) : WellFormed after := by
  have length_after : after.slots.length = slab.slots.length + chunkSize := by
    rw [slots_after, List.length_append, length_freshSlots]
  have stop : slab.slots.length + 1 + (chunkSize - 1) = after.slots.length := by
    have : chunkSize = 16 := rfl
    omega
  refine ⟨length_after ▸ named,
    ⟨(List.range' (slab.slots.length + 1) (chunkSize - 1)).map fromIndex, ?_, ?_, ?_⟩, ?_⟩
  · rw [next_after]
    refine freeChain_range (chunkSize - 1) _ stop (fun i _ hi => named i (by omega)) ?_
    intro i lo hi
    rw [slots_after]
    exact freshSlots_linked slab.slots v lo (by omega)
  · refine List.Nodup.map_on (fun i hi j hj same => ?_) List.nodup_range'
    have hi' := List.mem_range'_1.mp hi
    have hj' := List.mem_range'_1.mp hj
    rw [← named i (by omega), ← named j (by omega), same]
  · intro j next hj
    have bound := (List.getElem?_eq_some_iff.mp hj).1
    rw [slots_after] at hj
    rcases Nat.lt_trichotomy (intoIndex j) slab.slots.length with below | same | above
    · rw [List.getElem?_append_left below] at hj
      exact absurd hj (none_empty j next)
    · rw [same, freshSlots_full] at hj
      cases hj
    · refine List.mem_map.mpr ⟨intoIndex j, List.mem_range'_1.mpr ?_, LawfulSlabKey.fromInto j⟩
      omega
  · have old := wf.len
    rw [len_after, count, slots_after, List.countP_append, countP_freshSlots, weight_true]
    exact congrArg (· + 1) old

theorem insert_grow {slab : ChunkSlab I T} (wf : WellFormed slab) (v : T) (room : Named I slab.len)
    (last : slab.next = fromIndex slab.slots.length) (full : slab.len = slab.slots.length)
    (none_empty : ∀ j next : I, slab.slots[intoIndex j]? ≠ some (.empty next)) :
    ∃ after, slab.insert v = (.ok slab.next, after) ∧ Inserted slab v slab.next after := by
  have size : slab.slots.length = slab.entries.length * chunkSize := length_cells slab.entries
  have here : intoIndex slab.next = slab.slots.length := by
    rw [last, ← full]
    exact room
  have named : ∀ i < slab.slots.length + chunkSize, Named I i := by
    intro i hi
    have top := LawfulSlabKey.namedChunk (I := I) slab.entries.length
      (by rw [← size, ← full]; exact room)
    refine LawfulSlabKey.namedBelow i _ ?_ top
    have : chunkSize = 16 := rfl
    omega
  obtain ⟨second, chunk, hc, data⟩ := init_spec v here named
  let after : ChunkSlab I T :=
    ⟨slab.entries ++ [chunk], slab.len + 1, fromIndex (slab.slots.length + 1)⟩
  have slots_after : after.slots = slab.slots ++ freshSlots slab.slots.length v := by
    simp [slots, cells, after, data]
  have new_slot : after.slots[slab.slots.length]? = some (.full v) :=
    slots_after ▸ freshSlots_full slab.slots v
  refine ⟨after, ?_, grown_wellFormed wf v named none_empty slots_after rfl rfl, ?_, ?_, ?_, rfl,
    ?_, ?_⟩
  · rw [insert, if_neg (insert_unchecked wf room)]
    simp only [here, size, if_true, hc, second]
    rw [← size]
  · rw [get_eq, here, List.getElem?_eq_none (Nat.le_refl _)]
    rfl
  · rw [get_some_iff, here]
    exact new_slot
  · intro j other
    have apart : intoIndex j ≠ slab.slots.length :=
      fun same => other (intoIndex_injective (same.trans here.symm))
    rw [get_eq, get_eq, slots_after]
    rcases Nat.lt_or_gt_of_ne apart with below | above
    · rw [List.getElem?_append_left below]
    · rw [List.getElem?_eq_none (Nat.le_of_lt above)]
      by_cases bound : intoIndex j < slab.slots.length + chunkSize
      · rw [freshSlots_linked slab.slots v above bound]
        rfl
      · rw [List.getElem?_eq_none]
        simpa [length_freshSlots] using Nat.le_of_not_lt bound
  · rw [capacity_eq, capacity_eq, slots_after, List.length_append]
    exact Nat.le_add_right _ _
  · intro p
    rw [count, slots_after, List.countP_append, countP_freshSlots]
    rfl

/-- A well formed slab accepts a value as long as the key space is not used up. -/
theorem insert_spec {slab : ChunkSlab I T} (wf : WellFormed slab) (v : T) (room : Named I slab.len) :
    ∃ k after, slab.insert v = (.ok k, after) ∧ Inserted slab v k after := by
  obtain ⟨ks, chain, nodup, all⟩ := wf.free
  cases ks with
  | nil =>
    have none_empty : ∀ j next : I, slab.slots[intoIndex j]? ≠ some (.empty next) :=
      fun j next hj => by cases all j next hj
    exact ⟨slab.next, insert_grow wf v room chain (all_full wf none_empty) none_empty⟩
  | cons k ks => exact ⟨k, insert_reuse wf v room chain nodup all⟩

end Operations
end ChunkSlab
end Juggle.Utils
