import Mathlib.Data.Fintype.Card
import Juggle.Utils.SlabMap

/-! The chunked slab with keys narrower than an index. The last chunk may end where the
key space ends; the link behind its last slot is then zero, the key of a slot that is
taken. A full slab refuses a value before it follows that link, and every other slab has
an empty slot in front of it. -/
namespace Juggle.Utils

/-- The key types below the width of an index. -/
inductive NarrowKey where
  | u8
  | u16
  | u32
  deriving DecidableEq

namespace NarrowKey

def bits : NarrowKey → Nat
  | u8 => 8
  | u16 => 16
  | u32 => 32

abbrev Key (w : NarrowKey) := Fin (2 ^ w.bits)

instance (w : NarrowKey) : ChunkSlabKey w.Key where
  intoIndex k := k.val
  fromIndex i := Fin.ofNat (2 ^ w.bits) i
  maxValue := 2 ^ w.bits - 1
  zero := 0
  addOne k := if room : k.val + 1 < 2 ^ w.bits then some ⟨k.val + 1, room⟩ else none

theorem named_iff (w : NarrowKey) (i : Nat) : Named w.Key i ↔ i < 2 ^ w.bits := by
  constructor
  · intro named
    exact named ▸ (fromIndex i : w.Key).isLt
  · exact fun small => Nat.mod_eq_of_lt small

/-- A chunk is not cut by the end of the key space. -/
theorem chunk_below (w : NarrowKey) {c : Nat} (first : c * chunkSize < 2 ^ w.bits) :
    c * chunkSize + (chunkSize - 1) < 2 ^ w.bits := by
  have size : chunkSize = 16 := rfl
  rw [size] at first ⊢
  cases w <;> simp only [bits] at first ⊢ <;> omega

theorem maxValue_small (w : NarrowKey) : 1 < 2 ^ w.bits ∧ ChunkSlabKey.maxValue w.Key ≠ usizeMax := by
  unfold usizeMax
  cases w <;> decide

instance (w : NarrowKey) : LawfulSlabKey w.Key where
  fromInto k := Fin.ext (Nat.mod_eq_of_lt k.isLt)
  zeroNamed := rfl
  namedBelow i j below named :=
    (named_iff w i).mpr (Nat.lt_of_le_of_lt below ((named_iff w j).mp named))
  addOne k named := by
    have room : k.val + 1 < 2 ^ w.bits := (named_iff w _).mp named
    have here : (⟨k.val + 1, room⟩ : w.Key) = fromIndex (intoIndex k + 1) :=
      Fin.ext (Nat.mod_eq_of_lt room).symm
    exact (dif_pos room).trans (congrArg some here)
  namedChunk c named := (named_iff w _).mpr (chunk_below w ((named_iff w _).mp named))
  fullIff n below := by
    have most : n ≤ 2 ^ w.bits := by
      by_contra beyond
      have named := below (2 ^ w.bits) (Nat.not_le.mp beyond)
      exact Nat.lt_irrefl _ ((named_iff w _).mp named)
    have small := maxValue_small w
    change ¬ Named w.Key n ↔ _ ∧ n - 1 = 2 ^ w.bits - 1
    rw [named_iff, and_iff_right small.2]
    have wide := small.1
    omega

end NarrowKey

namespace ChunkSlab
open Juggle.Objects NarrowKey

/-- What is bound to each key of a narrow type. -/
abbrev KeyMap (w : NarrowKey) (T : Type) := w.Key → Option T

variable {w : NarrowKey} {T : Type}

/-- The number of keys that are bound. -/
def live (m : KeyMap w T) : Nat := (Finset.univ.filter fun k => (m k).isSome = true).card

inductive KeyOp (w : NarrowKey) (T : Type) where
  | insert (val : T)
  | remove (key : w.Key)
  | retain (func : w.Key → T → Bool)
  | clear

/-- A panic is an answer too, as the caller may catch it and go on with the slab. -/
inductive KeyAnswer (w : NarrowKey) (T : Type) where
  | key (k : w.Key)
  | value (v : Option T)
  | done
  | panicked (p : SlabPanic)

/-- The map with room for one value for each key. -/
inductive KeySpec : KeyMap w T → KeyOp w T → KeyAnswer w T → KeyMap w T → Prop
  | insert {m : KeyMap w T} {k : w.Key} (v : T) (room : live m ≠ 2 ^ w.bits) (fresh : m k = none) :
      KeySpec m (.insert v) (.key k) (Function.update m k (some v))
  | full {m : KeyMap w T} (v : T) (full : live m = 2 ^ w.bits) :
      KeySpec m (.insert v) (.panicked .sizeOverflow) m
  | remove (m : KeyMap w T) (k : w.Key) :
      KeySpec m (.remove k) (.value (m k)) (Function.update m k none)
  | retain (m : KeyMap w T) (func : w.Key → T → Bool) :
      KeySpec m (.retain func) .done (fun k => (m k).filter (func k))
  | clear (m : KeyMap w T) : KeySpec m .clear .done (fun _ => none)

def answer (slab : ChunkSlab w.Key T) : KeyOp w T → Except Empty (KeyAnswer w T) × ChunkSlab w.Key T
  | .insert val =>
    match slab.insert val with
    | (.ok key, after) => (.ok (.key key), after)
    | (.error p, after) => (.ok (.panicked p), after)
  | .remove key => let r := slab.remove key; (.ok (.value r.1), r.2)
  | .retain func => (.ok .done, slab.retain func)
  | .clear => (.ok .done, slab.clear)

/-- The slab is well formed and binds what the map binds. -/
structure Keeps (slab : ChunkSlab w.Key T) (m : KeyMap w T) : Prop where
  wf : WellFormed slab
  get : ∀ k, slab.get k = m k

theorem Keeps.len {slab : ChunkSlab w.Key T} {m : KeyMap w T} (h : Keeps slab m) :
    slab.len = live m := by
  have nodup : (slab.iter.map Prod.fst).Nodup := by
    rw [List.Nodup, List.pairwise_map]
    exact (iter_ascending h.wf).imp (fun below same => Nat.ne_of_lt below (congrArg Fin.val same))
  have listed : (slab.iter.map Prod.fst).toFinset =
      Finset.univ.filter fun k => (m k).isSome = true := by
    ext k
    simp only [List.mem_toFinset, List.mem_map, Prod.exists, exists_and_right, exists_eq_right,
      Finset.mem_filter, Finset.mem_univ, true_and, mem_iter h.wf, h.get, Option.isSome_iff_exists]
  rw [live, ← listed, List.toFinset_card_of_nodup nodup, List.length_map, length_iter h.wf]

/-- `insert` panics exactly when no key is left, and then leaves the slab as it was. -/
theorem Keeps.insert {slab : ChunkSlab w.Key T} {m : KeyMap w T} (h : Keeps slab m) (v : T) :
    if live m = 2 ^ w.bits then slab.insert v = (.error .sizeOverflow, slab)
    else ∃ k after, slab.insert v = (.ok k, after) ∧ m k = none ∧
      Keeps after (Function.update m k (some v)) := by
  have most : live m ≤ 2 ^ w.bits := by
    have := Finset.card_filter_le (Finset.univ : Finset w.Key) fun k => (m k).isSome = true
    rwa [Finset.card_univ, Fintype.card_fin] at this
  have below : ∀ i < slab.len, Named w.Key i := by
    intro i small
    rw [h.len] at small
    exact (named_iff w i).mpr (Nat.lt_of_lt_of_le small most)
  split
  · rename_i full
    have unnamed : ¬ Named w.Key slab.len := by
      rw [named_iff, h.len, full]
      exact Nat.lt_irrefl _
    exact if_pos ((LawfulSlabKey.fullIff slab.len below).mp unnamed)
  · rename_i room
    have named : Named w.Key slab.len := by
      rw [named_iff, h.len]
      exact Nat.lt_of_le_of_ne most room
    obtain ⟨k, after, inserted, spec⟩ := insert_spec h.wf v named
    obtain rfl : slab.get = m := funext h.get
    exact ⟨k, after, inserted, spec.fresh, spec.wf, congrFun spec.get_eq⟩

theorem Keeps.remove {slab : ChunkSlab w.Key T} {m : KeyMap w T} (h : Keeps slab m) (k : w.Key) :
    ∃ after, slab.remove k = (m k, after) ∧ Keeps after (Function.update m k none) := by
  obtain ⟨after, removed, wf, gone⟩ := remove_get h.wf k
  obtain rfl : slab.get = m := funext h.get
  exact ⟨after, removed, wf, congrFun gone⟩

theorem answer_simulates {slab : ChunkSlab w.Key T} {m : KeyMap w T} (h : Keeps slab m)
    (op : KeyOp w T) :
    ∃ a after n, answer slab op = (.ok a, after) ∧ KeySpec m op a n ∧ Keeps after n := by
  cases op with
  | insert v =>
    have inserted := h.insert v
    by_cases full : live m = 2 ^ w.bits
    · rw [if_pos full] at inserted
      exact ⟨.panicked .sizeOverflow, slab, m, by simp only [answer, inserted], .full v full, h⟩
    · rw [if_neg full] at inserted
      obtain ⟨k, after, taken, fresh, kept⟩ := inserted
      exact ⟨.key k, after, _, by simp only [answer, taken], .insert v full fresh, kept⟩
  | remove k =>
    obtain ⟨after, removed, kept⟩ := h.remove k
    exact ⟨.value (m k), after, _, by simp only [answer, removed], .remove m k, kept⟩
  | retain func =>
    obtain ⟨wf, values⟩ := retain_spec h.wf func
    exact ⟨.done, _, _, rfl, .retain m func, wf, fun k => by rw [values k, h.get k]⟩
  | clear => exact ⟨.done, _, _, rfl, .clear m, new_wellFormed, fun k => rfl⟩

/-- A slab with narrow keys answers every list of calls as the map with one value for each
key does. It panics for want of a key and for nothing else, and stays as it is then. -/
theorem narrow_slab_keeps_map (w : NarrowKey) (T : Type) (ops : List (KeyOp w T)) :
    ∃ answers slab m, calls answer new ops = (.ok answers, slab) ∧ answers.length = ops.length ∧
      Allowed KeySpec (fun _ => none) (ops.zip answers) m ∧
      (∀ k, slab.get k = m k) ∧ slab.len = live m ∧ slab.iter.length = slab.len ∧
      (∀ k v, (k, v) ∈ slab.iter ↔ m k = some v) ∧
      slab.iter.Pairwise (fun a b => a.1 < b.1) ∧
      ∀ v, if live m = 2 ^ w.bits then slab.insert v = (.error .sizeOverflow, slab)
        else ∃ k after, slab.insert v = (.ok k, after) ∧ m k = none := by
  have start : Keeps (new : ChunkSlab w.Key T) (fun _ => none) := ⟨new_wellFormed, fun _ => rfl⟩
  obtain ⟨answers, slab, m, answered, len, allowed, final⟩ :=
    calls_refine (fun _ _ op h => answer_simulates h op) start ops
  refine ⟨answers, slab, m, answered, len, allowed, final.get, final.len, length_iter final.wf,
    fun k v => by rw [mem_iter final.wf, final.get k], iter_ascending final.wf, fun v => ?_⟩
  have inserted := final.insert v
  split at inserted
  · rename_i full
    rwa [if_pos full]
  · rename_i room
    obtain ⟨k, after, taken, fresh, _⟩ := inserted
    rw [if_neg room]
    exact ⟨k, after, taken, fresh⟩

end ChunkSlab
end Juggle.Utils
