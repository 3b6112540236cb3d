import Mathlib.Data.Option.Basic
import Mathlib.Logic.Function.Basic
import Juggle.Lib.Object
import Juggle.Utils.FreeList

/-! The chunked slab as a finite map with fresh keys. The abstract map knows nothing
of chunks, slots or links: it says what is bound to each key and which answers a call
may give. A well formed slab simulates it under every sequence of calls. -/
namespace Juggle.Utils.ChunkSlab
open Juggle.Objects Juggle.Count

section Listing
variable {I T : Type}

theorem zipIdx_cells (chunks : List (Chunk I T)) (n : Nat) :
    ((chunks.zipIdx n).flatMap fun e =>
      e.1.data.zipIdx.map fun d => (e.2 * chunkSize + d.2, d.1)) =
      ((cells chunks).zipIdx (n * chunkSize)).map Prod.swap := by
  induction chunks generalizing n with
  | nil => rfl
  | cons c cs ih =>
    have size := c.size
    have tail := ih (n + 1)
    have next : (n + 1) * chunkSize = n * chunkSize + chunkSize := Nat.succ_mul n chunkSize
    simp only [cells] at tail
    simp only [cells, List.zipIdx_cons, List.flatMap_cons, List.zipIdx_append, List.map_append,
      size, tail, next]
    congr 1
    rw [List.zipIdx_eq_map_add (i := n * chunkSize), List.map_map]
    rfl

variable [ChunkSlabKey I]

/-- A slot as `iter` reports it. -/
def listed (e : Entry I T × Nat) : Option (I × T) := e.1.val?.map fun v => (fromIndex e.2, v)

theorem iter_eq (slab : ChunkSlab I T) : slab.iter = slab.slots.zipIdx.filterMap listed := by
  have flat := zipIdx_cells slab.entries 0
  rw [Nat.zero_mul] at flat
  unfold iter slots
  simp only [flat, List.filterMap_map]
  congr 1
  funext e
  obtain ⟨entry, i⟩ := e
  cases entry <;> rfl

theorem mem_iter {slab : ChunkSlab I T} [LawfulSlabKey I] (wf : WellFormed slab) (k : I) (v : T) :
    (k, v) ∈ slab.iter ↔ slab.get k = some v := by
  rw [iter_eq, get_some_iff, List.mem_filterMap]
  constructor
  · rintro ⟨⟨entry, i⟩, member, shown⟩
    have slot : slab.slots[i]? = some entry := List.mk_mem_zipIdx_iff_getElem?.mp member
    have name := wf.named i (List.getElem?_eq_some_iff.mp slot).1
    cases entry with
    | empty next => simp [listed, Entry.val?] at shown
    | full w =>
      simp only [listed, Entry.val?, Option.map_some, Option.some.injEq, Prod.mk.injEq] at shown
      rw [← shown.1, ← shown.2, name, slot]
  · intro slot
    refine ⟨(.full v, intoIndex k), List.mk_mem_zipIdx_iff_getElem?.mpr slot, ?_⟩
    simp [listed, Entry.val?, LawfulSlabKey.fromInto]

theorem length_iter {slab : ChunkSlab I T} (wf : WellFormed slab) :
    slab.iter.length = slab.len := by
  have shown : (fun e : Entry I T × Nat => (listed e).isSome) =
      Entry.holds (fun _ => true) ∘ Prod.fst := by
    funext e
    obtain ⟨entry, i⟩ := e
    cases entry <;> rfl
  rw [iter_eq, List.length_filterMap_eq_countP, shown, ← List.countP_map, List.zipIdx_map_fst,
    wf.len]
  rfl

/-- The keys come in the order of their indices. -/
theorem iter_ascending {slab : ChunkSlab I T} (wf : WellFormed slab) :
    slab.iter.Pairwise (fun a b => intoIndex a.1 < intoIndex b.1) := by
  have indices : slab.slots.zipIdx.Pairwise (fun a b => a.2 < b.2) := by
    rw [← List.pairwise_map, List.zipIdx_map_snd]
    exact List.pairwise_lt_range'
  rw [iter_eq]
  refine List.Pairwise.filterMap listed ?_ (List.Pairwise.and_mem.mp indices)
  rintro ⟨e, i⟩ ⟨f, j⟩ ⟨memberI, memberJ, below⟩ a shownA b shownB
  have slotI := List.mk_mem_zipIdx_iff_getElem?.mp memberI
  have slotJ := List.mk_mem_zipIdx_iff_getElem?.mp memberJ
  have nameI := wf.named i (List.getElem?_eq_some_iff.mp slotI).1
  have nameJ := wf.named j (List.getElem?_eq_some_iff.mp slotJ).1
  obtain ⟨v, _, rfl⟩ := Option.map_eq_some_iff.mp shownA
  obtain ⟨w, _, rfl⟩ := Option.map_eq_some_iff.mp shownB
  change intoIndex (fromIndex i : I) < intoIndex (fromIndex j : I)
  rw [nameI, nameJ]
  exact below

end Listing

section Retain
variable {I T : Type} [ChunkSlabKey I] [LawfulSlabKey I]

/-- What `retain` has done when the first `n` indices are behind it. -/
structure Swept (func : I → T → Bool) (slab : ChunkSlab I T) (n : Nat) (after : ChunkSlab I T) :
    Prop where
  wf : WellFormed after
  chunks : after.entries.length = slab.entries.length
  values : ∀ k, after.get k =
    if intoIndex k < n then (slab.get k).filter (func k) else slab.get k

omit [LawfulSlabKey I] in
theorem swept_keep {func : I → T → Bool} {slab after : ChunkSlab I T} {n : Nat}
    (sofar : Swept func slab n after)
    (kept : ∀ k v, intoIndex k = n → slab.get k = some v → func k v = true) :
    Swept func slab (n + 1) after where
  wf := sofar.wf
  chunks := sofar.chunks
  values k := by
    rw [sofar.values k]
    by_cases here : intoIndex k = n
    · have old : ¬ intoIndex k < n := by omega
      have new : intoIndex k < n + 1 := by omega
      rw [if_neg old, if_pos new]
      cases hv : slab.get k with
      | none => rfl
      | some v => rw [Option.filter_some, if_pos (kept k v here hv)]
    · have same : intoIndex k < n + 1 ↔ intoIndex k < n := by omega
      exact if_congr same.symm rfl rfl

theorem swept_drop {func : I → T → Bool} {slab after later : ChunkSlab I T} {k : I} {v : T}
    (sofar : Swept func slab (intoIndex k) after) (refused : func k v = false)
    (removed : Removed after k v later) (bound : slab.get k = some v) :
    Swept func slab (intoIndex k + 1) later where
  wf := removed.wf
  chunks := by
    have := removed.capacity
    rw [capacity, capacity] at this
    rw [← sofar.chunks]
    exact Nat.eq_of_mul_eq_mul_right (by decide) this
  values j := by
    by_cases same : j = k
    · subst same
      rw [removed.gone, if_pos (Nat.lt_succ_self _), bound, Option.filter_some, refused,
        if_neg Bool.false_ne_true]
    · have apart : intoIndex j ≠ intoIndex k := fun e => same (intoIndex_injective e)
      have below : intoIndex j < intoIndex k + 1 ↔ intoIndex j < intoIndex k := by omega
      rw [removed.others j same, sofar.values j]
      exact if_congr below.symm rfl rfl

theorem swept_slot {func : I → T → Bool} {slab after : ChunkSlab I T} {ci i : Nat}
    (sofar : Swept func slab (ci * chunkSize + i) after)
    (inside : ci < slab.entries.length) (small : i < chunkSize) :
    Swept func slab (ci * chunkSize + i + 1) (retainSlot func ci after i) := by
  have place : (ci * chunkSize + i) / chunkSize = ci := by
    rw [Nat.mul_comm, Nat.mul_add_div (by decide), Nat.div_eq_of_lt small, Nat.add_zero]
  have offset : (ci * chunkSize + i) % chunkSize = i % chunkSize := by
    rw [Nat.mul_comm, Nat.mul_add_mod]
  obtain ⟨chunk, found⟩ : ∃ chunk, after.entries[ci]? = some chunk :=
    ⟨_, List.getElem?_eq_getElem (sofar.chunks ▸ inside)⟩
  have slot : after.slots[ci * chunkSize + i]? = some (chunk.slot i) := by
    rw [slots, getElem?_cells, place, found, Option.map_some]
    simp only [Chunk.slot, offset]
  have name := sofar.wf.named _ (List.getElem?_eq_some_iff.mp slot).1
  let key : I := fromIndex (ci * chunkSize + i)
  have index : intoIndex key = ci * chunkSize + i := name
  have before : after.get key = slab.get key := by
    rw [sofar.values key, if_neg (by omega)]
  have only : ∀ k : I, intoIndex k = ci * chunkSize + i → k = key :=
    fun k hk => intoIndex_injective (hk.trans index.symm)
  unfold retainSlot
  cases hs : chunk.slot i with
  | empty next =>
    simp only [found, hs]
    refine swept_keep sofar (fun k v hk hv => ?_)
    have vacant : after.get key = none := by rw [get_eq, index, slot, hs]; rfl
    rw [only k hk, ← before, vacant] at hv
    cases hv
  | full value =>
    have bound : after.get key = some value := by rw [get_some_iff, index, slot, hs]
    simp only [found, hs]
    by_cases asked : func key value = true
    · rw [if_pos asked]
      refine swept_keep sofar (fun k v hk hv => ?_)
      rw [only k hk, ← before, bound] at hv
      rw [only k hk, ← Option.some.inj hv]
      exact asked
    · obtain ⟨later, taken, removed⟩ := remove_some sofar.wf bound
      have body : after.remove key = (some value, { after.setEntry (ci * chunkSize + i)
          (.empty after.next) with len := after.len - 1, next := key }) := by
        have here : chunk.slot (intoIndex key) = .full value := by
          rw [← hs, index]
          simp only [Chunk.slot, offset]
        unfold remove
        rw [index, place, found]
        simp only [← index, here]
      rw [taken] at body
      rw [if_neg asked, ← (Prod.mk.inj body).2]
      have bound' : slab.get key = some value := before ▸ bound
      rw [← index] at sofar ⊢
      exact swept_drop sofar (Bool.eq_false_iff.mpr asked) removed bound'

theorem swept_chunk {func : I → T → Bool} {slab after : ChunkSlab I T} {ci : Nat}
    (sofar : Swept func slab (ci * chunkSize) after) (inside : ci < slab.entries.length)
    (n : Nat) (small : n ≤ chunkSize) :
    Swept func slab (ci * chunkSize + n) ((List.range n).foldl (retainSlot func ci) after) := by
  induction n with
  | zero => exact sofar
  | succ n ih =>
    rw [List.range_succ, List.foldl_append, List.foldl_cons, List.foldl_nil, ← Nat.add_assoc]
    exact swept_slot (ih (Nat.le_of_succ_le small)) inside small

theorem swept_chunks {func : I → T → Bool} {slab : ChunkSlab I T} (wf : WellFormed slab)
    (n : Nat) (inside : n ≤ slab.entries.length) :
    Swept func slab (n * chunkSize) ((List.range n).foldl
      (fun slab ci => (List.range chunkSize).foldl (retainSlot func ci) slab) slab) := by
  induction n with
  | zero => exact ⟨wf, rfl, fun k => by simp⟩
  | succ n ih =>
    rw [List.range_succ, List.foldl_append, List.foldl_cons, List.foldl_nil, Nat.succ_mul]
    exact swept_chunk (ih (Nat.le_of_succ_le inside)) inside chunkSize (Nat.le_refl chunkSize)

/-- `retain` keeps exactly the values the closure accepts, under their keys. -/
theorem retain_spec {slab : ChunkSlab I T} (wf : WellFormed slab) (func : I → T → Bool) :
    WellFormed (slab.retain func) ∧
      ∀ k, (slab.retain func).get k = (slab.get k).filter (func k) := by
  have all : Swept func slab _ _ := swept_chunks wf slab.entries.length (Nat.le_refl _)
  refine ⟨all.wf, fun k => ?_⟩
  rw [retain, all.values k]
  cases hv : slab.get k with
  | none => simp
  | some v => exact if_pos (get_lt_capacity hv)

end Retain

section Bound
variable {I T : Type} [ChunkSlabKey I] [DecidableEq I]

theorem Inserted.get_eq {slab after : ChunkSlab I T} {v : T} {k : I}
    (spec : Inserted slab v k after) : after.get = Function.update slab.get k (some v) := by
  funext j
  by_cases same : j = k
  · rw [same, spec.bound, Function.update_self]
  · rw [spec.others j same, Function.update_of_ne same]

/-- `remove` on a key that may be dead. -/
theorem remove_get [LawfulSlabKey I] {slab : ChunkSlab I T} (wf : WellFormed slab) (k : I) :
    ∃ after, slab.remove k = (slab.get k, after) ∧ WellFormed after ∧
      after.get = Function.update slab.get k none := by
  cases hv : slab.get k with
  | none => exact ⟨slab, remove_none hv, wf, (hv ▸ Function.update_eq_self k slab.get).symm⟩
  | some v =>
    obtain ⟨after, removed, spec⟩ := remove_some wf hv
    refine ⟨after, removed, spec.wf, funext fun j => ?_⟩
    by_cases same : j = k
    · rw [same, spec.gone, Function.update_self]
    · rw [spec.others j same, Function.update_of_ne same]

end Bound

section Map
variable {T : Type}

/-- What is bound to each key, for keys of type `usize`. -/
abbrev Bindings (T : Type) := Nat → Option T

inductive Op (T : Type) where
  | insert (val : T)
  | remove (key : Nat)
  | retain (func : Nat → T → Bool)
  | clear
  | write (key : Nat) (val : T)

inductive Answer (T : Type) where
  | key (k : Nat)
  | value (v : Option T)
  | done

/-- The map that the slab stands for, with the answers it gives. -/
inductive MapSpec : Bindings T → Op T → Answer T → Bindings T → Prop
  | insert {m : Bindings T} {k : Nat} (v : T) (fresh : m k = none) :
      MapSpec m (.insert v) (.key k) (Function.update m k (some v))
  | remove (m : Bindings T) (k : Nat) :
      MapSpec m (.remove k) (.value (m k)) (Function.update m k none)
  | retain (m : Bindings T) (func : Nat → T → Bool) :
      MapSpec m (.retain func) .done (fun k => (m k).filter (func k))
  | clear (m : Bindings T) : MapSpec m .clear .done (fun _ => none)
  | write (m : Bindings T) (k : Nat) (v : T) :
      MapSpec m (.write k v) (.value (m k)) (Function.update m k ((m k).map fun _ => v))

/-- One call on the slab; a write goes through the reference of `get_mut`. -/
def call (slab : ChunkSlab Nat T) : Op T → Except SlabPanic (Answer T) × ChunkSlab Nat T
  | .insert val =>
    match slab.insert val with
    | (.ok key, after) => (.ok (.key key), after)
    | (.error p, after) => (.error p, after)
  | .remove key => let r := slab.remove key; (.ok (.value r.1), r.2)
  | .retain func => (.ok .done, slab.retain func)
  | .clear => (.ok .done, slab.clear)
  | .write key val =>
    match slab.getMut key with
    | some (old, put) => (.ok (.value (some old)), put val)
    | none => (.ok (.value none), slab)

/-- The slab is well formed and binds what the map binds. -/
structure Binds (slab : ChunkSlab Nat T) (m : Bindings T) : Prop where
  wf : WellFormed slab
  get : ∀ k, slab.get k = m k

theorem getMut_eq (slab : ChunkSlab Nat T) (k : Nat) :
    slab.getMut k = (slab.get k).map fun v => (v, fun val => slab.update k fun _ => val) := by
  cases hv : slab.get k with
  | none =>
    rw [get_eq, slots, getElem?_cells] at hv
    unfold getMut
    cases hc : slab.entries[intoIndex k / chunkSize]? with
    | none => rfl
    | some chunk =>
      cases hs : chunk.slot (intoIndex k) with
      | empty next => simp [hs]
      | full v => simp [hc, hs, Entry.val?] at hv
  | some v =>
    obtain ⟨chunk, hc, hs⟩ := chunk_of_slot ((get_some_iff slab k v).mp hv)
    have writes : (fun val => slab.update k fun _ => val) =
        fun val => slab.setEntry (intoIndex k) (.full val) := by
      funext val
      exact update_some (fun _ => val) hv
    simp only [getMut, hc, hs, Option.map_some, writes]

theorem binds_insert {slab : ChunkSlab Nat T} {m : Bindings T} (h : Binds slab m) (v : T) :
    ∃ k after, slab.insert v = (.ok k, after) ∧ m k = none ∧
      Binds after (Function.update m k (some v)) := by
  obtain ⟨k, after, inserted, spec⟩ := insert_spec h.wf v rfl
  obtain rfl : slab.get = m := funext h.get
  exact ⟨k, after, inserted, spec.fresh, spec.wf, congrFun spec.get_eq⟩

theorem binds_remove {slab : ChunkSlab Nat T} {m : Bindings T} (h : Binds slab m) (k : Nat) :
    ∃ after, slab.remove k = (m k, after) ∧ Binds after (Function.update m k none) := by
  obtain ⟨after, removed, wf, gone⟩ := remove_get h.wf k
  obtain rfl : slab.get = m := funext h.get
  exact ⟨after, removed, wf, congrFun gone⟩

theorem binds_update {slab : ChunkSlab Nat T} {m : Bindings T} (h : Binds slab m) (k : Nat)
    (f : T → T) : Binds (slab.update k f) (Function.update m k ((m k).map f)) where
  wf := update_wellFormed h.wf k f
  get j := by
    by_cases same : j = k
    · rw [same, get_update_self, h.get k, Function.update_self]
    · rw [get_update_other slab f same, h.get j, Function.update_of_ne same]

theorem call_simulates {slab : ChunkSlab Nat T} {m : Bindings T} (h : Binds slab m) (op : Op T) :
    ∃ a after n, call slab op = (.ok a, after) ∧ MapSpec m op a n ∧ Binds after n := by
  cases op with
  | insert v =>
    obtain ⟨k, after, inserted, fresh, kept⟩ := binds_insert h v
    exact ⟨.key k, after, _, by simp only [call, inserted], .insert v fresh, kept⟩
  | remove k =>
    obtain ⟨after, removed, kept⟩ := binds_remove h k
    exact ⟨.value (m k), after, _, by simp only [call, removed], .remove m k, kept⟩
  | retain func =>
    obtain ⟨wf, values⟩ := retain_spec h.wf func
    exact ⟨.done, _, _, rfl, .retain m func, wf, fun k => by rw [values k, h.get k]⟩
  | clear => exact ⟨.done, _, _, rfl, .clear m, new_wellFormed, fun k => rfl⟩
  | write k v =>
    refine ⟨.value (m k), slab.update k fun _ => v, _, ?_, .write m k v, binds_update h k _⟩
    rw [call, getMut_eq, h.get k]
    cases hv : m k with
    | none => simp only [Option.map_none, update_none _ (hv ▸ h.get k)]
    | some old => rfl

/-- The observations of a slab that agree with a map. -/
structure Observed (slab : ChunkSlab Nat T) (m : Bindings T) : Prop where
  get : ∀ k, slab.get k = m k
  getMut : ∀ k, (slab.getMut k).map Prod.fst = m k
  len : slab.len = slab.iter.length
  listed : ∀ k v, (k, v) ∈ slab.iter ↔ m k = some v
  ascending : slab.iter.Pairwise (fun a b => a.1 < b.1)

theorem Binds.observed {slab : ChunkSlab Nat T} {m : Bindings T} (h : Binds slab m) :
    Observed slab m where
  get := h.get
  getMut k := by
    rw [getMut_eq, h.get k, Option.map_map]
    cases m k <;> rfl
  len := (length_iter h.wf).symm
  listed k v := by rw [mem_iter h.wf, h.get k]
  ascending := iter_ascending h.wf

/-- The keys on the free list name the empty slots, each of them once. -/
theorem free_list {slab : ChunkSlab Nat T} (wf : WellFormed slab) :
    ∃ ks, FreeChain slab.slots slab.next ks ∧ ks.Nodup ∧
      ∀ k, k ∈ ks ↔ ∃ next, slab.slots[k]? = some (.empty next) := by
  obtain ⟨ks, chain, nodup, all⟩ := wf.free
  exact ⟨ks, chain, nodup, fun k =>
    ⟨fun member => freeChain_mem chain member, fun ⟨next, slot⟩ => all k next slot⟩⟩

/-- Every list of calls on a new slab is answered as the map answers it. The slab left
behind shows exactly the bindings of the map, calls with dead keys do not touch it, and
its free list runs through the empty slots up to the index after the last chunk. -/
theorem slab_keeps_map (ops : List (Op T)) :
    ∃ answers slab m, calls call new ops = (.ok answers, slab) ∧ answers.length = ops.length ∧
      Allowed MapSpec (fun _ => none) (ops.zip answers) m ∧ Observed slab m ∧
      (∀ k, m k = none → slab.remove k = (none, slab)) ∧
      slab.slots.length = slab.entries.length * 16 ∧
      ∃ ks, FreeChain slab.slots slab.next ks ∧ ks.Nodup ∧
        ∀ k, k ∈ ks ↔ ∃ next, slab.slots[k]? = some (.empty next) := by
  have start : Binds (new : ChunkSlab Nat T) (fun _ => none) := ⟨new_wellFormed, fun _ => rfl⟩
  obtain ⟨answers, slab, m, answered, len, allowed, final⟩ :=
    calls_refine (fun _ _ op h => call_simulates h op) start ops
  exact ⟨answers, slab, m, answered, len, allowed, final.observed,
    fun k dead => remove_none (dead ▸ final.get k), length_cells slab.entries,
    free_list final.wf⟩

end Map
end Juggle.Utils.ChunkSlab
