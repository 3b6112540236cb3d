import Juggle.Lib.Loop
import Juggle.Utils.SlabMap

/-! `retain` and `remove` with user code that has a state of its own and may panic: the
closure that is asked about each value and the destructor of each removed value. -/
namespace Juggle.Utils.ChunkSlab
open Juggle.Loops
variable {I T U : Type} [ChunkSlabKey I]

/-- The user code that unwound, and the key it was called for. -/
inductive Unwound (I : Type) where
  | closure (key : I)
  | destructor (key : I)
  deriving DecidableEq

/-- The closure of `retain`; it has no answer when it panics. -/
abbrev Closure (I T U : Type) := I → T → U → Option Bool × U

/-- A destructor; it does not come to its end when it panics. -/
abbrev Destructor (T U : Type) := T → U → Option Unit × U

namespace Unwinding

/-- The loop body of `retain` at slot `i` of chunk `ci`. The assignment to the slot drops
the old value; when that unwinds the new value is stored and nothing after it is done. -/
def retainSlot (func : Closure I T U) (drop : Destructor T U) (ci i : Nat) :
    ChunkSlab I T × U → Ended (Unwound I) (ChunkSlab I T × U)
  | (slab, u) =>
    let offset := ci * chunkSize
    match slab.entries[ci]? with
    | some chunk =>
      match chunk.slot i with
      | .full value =>
        let key := fromIndex (offset + i)
        match func key value u with
        | (none, u) => (.error (.closure key), slab, u)
        | (some true, u) => (.ok (), slab, u)
        | (some false, u) =>
          let stored := slab.setEntry (offset + i) (.empty slab.next)
          match drop value u with
          | (none, u) => (.error (.destructor key), stored, u)
          | (some (), u) => (.ok (), { stored with len := slab.len - 1, next := key }, u)
      | .empty _ => (.ok (), slab, u)
    | none => (.ok (), slab, u)

def retain (func : Closure I T U) (drop : Destructor T U) (s : ChunkSlab I T × U) :
    Ended (Unwound I) (ChunkSlab I T × U) :=
  forEach (fun ci => forEach (retainSlot func drop ci) (List.range chunkSize))
    (List.range s.1.entries.length) s

/-- `remove`, whose caller drops the value it gets. -/
def remove (drop : Destructor T U) (key : I) (s : ChunkSlab I T × U) :
    Ended (Unwound I) (ChunkSlab I T × U) :=
  match s.1.remove key with
  | (none, slab) => (.ok (), slab, s.2)
  | (some value, slab) =>
    match drop value s.2 with
    | (none, u) => (.error (.destructor key), slab, u)
    | (some (), u) => (.ok (), slab, u)

end Unwinding

section Bulk

/-- Asking about a list of values: how it ended, the keys to be removed and the state. -/
def survey (func : Closure I T U) (drop : Destructor T U) :
    List (I × T) → U → Except (Unwound I) Unit × List I × U
  | [], u => (.ok (), [], u)
  | (key, value) :: rest, u =>
    match func key value u with
    | (none, u) => (.error (.closure key), [], u)
    | (some true, u) => survey func drop rest u
    | (some false, u) =>
      match drop value u with
      | (none, u) => (.error (.destructor key), [], u)
      | (some (), u) =>
        let r := survey func drop rest u
        (r.1, key :: r.2.1, r.2.2)

def removeAll (slab : ChunkSlab I T) (keys : List I) : ChunkSlab I T :=
  keys.foldl (fun slab key => (slab.remove key).2) slab

/-- An assignment that unwound has emptied its slot and no more. -/
def abandon (slab : ChunkSlab I T) : Except (Unwound I) Unit → ChunkSlab I T
  | .error (.destructor key) => slab.setEntry (intoIndex key) (.empty slab.next)
  | _ => slab

/-- What is left behind when the keys of a survey are removed one after the other. -/
def settle (slab : ChunkSlab I T) (r : Except (Unwound I) Unit × List I × U) :
    Ended (Unwound I) (ChunkSlab I T × U) :=
  (r.1, (removeAll slab r.2.1).abandon r.1, r.2.2)

/-- The values from index `n` on, as `iter` reports them. -/
def iterFrom (slab : ChunkSlab I T) (n : Nat) : List (I × T) :=
  ((slab.slots.drop n).zipIdx n).filterMap listed

theorem iterFrom_zero (slab : ChunkSlab I T) : slab.iterFrom 0 = slab.iter := by
  rw [iterFrom, List.drop_zero, iter_eq]

theorem iterFrom_step {slab : ChunkSlab I T} {n : Nat} {e : Entry I T}
    (slot : slab.slots[n]? = some e) :
    slab.iterFrom n = (listed (e, n)).toList ++ slab.iterFrom (n + 1) := by
  obtain ⟨bound, rfl⟩ := List.getElem?_eq_some_iff.mp slot
  rw [iterFrom, List.drop_eq_getElem_cons bound, List.zipIdx_cons, List.filterMap_cons]
  cases listed (slab.slots[n], n) <;> rfl

theorem slots_remove {slab : ChunkSlab I T} {k : I} {v : T} (present : slab.get k = some v) :
    (slab.remove k).2.slots = slab.slots.set (intoIndex k) (.empty slab.next) := by
  obtain ⟨chunk, hc, hs⟩ := chunk_of_slot ((get_some_iff slab k v).mp present)
  simp only [remove, hc, hs]
  exact slots_setEntry slab _ _

/-- The body of the loop on a full slot, in terms of `remove`. -/
theorem retainSlot_full {func : Closure I T U} {drop : Destructor T U} {slab : ChunkSlab I T}
    (wf : WellFormed slab) {n : Nat} {value : T} (slot : slab.slots[n]? = some (.full value)) (u : U) :
    Unwinding.retainSlot func drop (n / chunkSize) (n % chunkSize) (slab, u) =
      match func (fromIndex n) value u with
      | (none, u) => (.error (.closure (fromIndex n)), slab, u)
      | (some true, u) => (.ok (), slab, u)
      | (some false, u) =>
        match drop value u with
        | (none, u) => (.error (.destructor (fromIndex n)),
            slab.setEntry (intoIndex (fromIndex n : I)) (.empty slab.next), u)
        | (some (), u) => (.ok (), (slab.remove (fromIndex n)).2, u) := by
  obtain ⟨chunk, hc, hs⟩ := chunk_of_slot slot
  have name : intoIndex (fromIndex n : I) = n := wf.named n (List.getElem?_eq_some_iff.mp slot).1
  have place : n / chunkSize * chunkSize + n % chunkSize = n := Nat.div_add_mod' n chunkSize
  have here : chunk.slot (n % chunkSize) = .full value := by
    rw [← hs]
    simp only [Chunk.slot, Nat.mod_mod]
  have removed : (slab.remove (fromIndex n)).2 =
      { slab.setEntry n (.empty slab.next) with len := slab.len - 1, next := fromIndex n } := by
    simp only [ChunkSlab.remove, name, hc, hs]
  simp only [Unwinding.retainSlot, hc, here, place, name, removed]

theorem retainSlot_empty {func : Closure I T U} {drop : Destructor T U} {slab : ChunkSlab I T}
    {n : Nat} {next : I} (slot : slab.slots[n]? = some (.empty next)) (u : U) :
    Unwinding.retainSlot func drop (n / chunkSize) (n % chunkSize) (slab, u) = (.ok (), slab, u) := by
  obtain ⟨chunk, hc, hs⟩ := chunk_of_slot slot
  have here : chunk.slot (n % chunkSize) = .empty next := by
    rw [← hs]
    simp only [Chunk.slot, Nat.mod_mod]
  simp only [Unwinding.retainSlot, hc, here]

variable [LawfulSlabKey I]

/-- The loop from index `n` on does what a survey of the values from there says. -/
theorem retain_from {func : Closure I T U} {drop : Destructor T U} {slab : ChunkSlab I T}
    (wf : WellFormed slab) {n m : Nat} (stop : n + m = slab.slots.length) (u : U) :
    forEach (fun i => Unwinding.retainSlot func drop (i / chunkSize) (i % chunkSize))
      (List.range' n m) (slab, u) = settle slab (survey func drop (slab.iterFrom n) u) := by
  induction m generalizing n slab u with
  | zero =>
    have nothing : slab.iterFrom n = [] := by
      rw [iterFrom, List.drop_eq_nil_of_le (by omega)]
      rfl
    rw [nothing]
    rfl
  | succ m ih =>
    have bound : n < slab.slots.length := by omega
    have slot := List.getElem?_eq_getElem bound
    rw [List.range'_succ, forEach, iterFrom_step slot]
    cases entry : slab.slots[n] with
    | empty next =>
      rw [entry] at slot
      rw [retainSlot_empty slot]
      exact ih wf (by omega) u
    | full value =>
      rw [entry] at slot
      rw [retainSlot_full wf slot]
      change _ = settle slab (survey func drop ((fromIndex n, value) :: slab.iterFrom (n + 1)) u)
      rw [survey]
      rcases func (fromIndex n) value u with ⟨_ | _ | _, u₁⟩
      · rfl
      · dsimp only
        rcases drop value u₁ with ⟨_ | _, u₂⟩
        · rfl
        · -- only the slot that is behind the loop now has changed
          have name : intoIndex (fromIndex n : I) = n := wf.named n bound
          have present : slab.get (fromIndex n) = some value := by
            rw [get_some_iff, name]
            exact slot
          obtain ⟨after, taken, spec⟩ := remove_some wf present
          have changed : after.slots = slab.slots.set n (.empty slab.next) := by
            have slots := slots_remove present
            rwa [taken, name] at slots
          have ahead : after.iterFrom (n + 1) = slab.iterFrom (n + 1) := by
            rw [iterFrom, iterFrom, changed, List.drop_set_of_lt (Nat.lt_succ_self n)]
          have rest := ih spec.wf (n := n + 1) (by rw [changed, List.length_set]; omega) u₂
          rw [ahead] at rest
          rw [taken]
          change forEach _ _ (after, u₂) = _
          rw [rest, settle, settle, removeAll, removeAll, List.foldl_cons, taken]
      · exact ih wf (by omega) u₁

theorem retain_eq {slab : ChunkSlab I T} (wf : WellFormed slab) (func : Closure I T U)
    (drop : Destructor T U) (u : U) :
    Unwinding.retain func drop (slab, u) = settle slab (survey func drop slab.iter u) := by
  have size : slab.entries.length * chunkSize = slab.slots.length := (length_cells slab.entries).symm
  rw [Unwinding.retain, forEach_blocks (Unwinding.retainSlot func drop) (by decide), size,
    List.range_eq_range', retain_from wf (Nat.zero_add _), iterFrom_zero]

end Bulk

section Pure
variable (func : I → T → Bool)

/-- A step on the slab that leaves the state of the user code alone. -/
def beside (body : ChunkSlab I T → Nat → ChunkSlab I T) (s : ChunkSlab I T × U) (i : Nat) :
    ChunkSlab I T × U := (body s.1 i, s.2)

omit [ChunkSlabKey I] in
theorem foldl_beside (body : ChunkSlab I T → Nat → ChunkSlab I T) (l : List Nat)
    (s : ChunkSlab I T × U) : l.foldl (beside body) s = (l.foldl body s.1, s.2) := by
  induction l generalizing s with
  | nil => rfl
  | cons i l ih => exact ih (beside body s i)

def pureClosure : Closure I T U := fun key value u => (some (func key value), u)

def silent : Destructor T U := fun _ u => (some (), u)

theorem retainSlot_pure (ci i : Nat) (s : ChunkSlab I T × U) :
    Unwinding.retainSlot (pureClosure func) silent ci i s =
      (.ok (), beside (retainSlot func ci) s i) := by
  obtain ⟨slab, u⟩ := s
  simp only [Unwinding.retainSlot, beside, retainSlot]
  cases hc : slab.entries[ci]? with
  | none => rfl
  | some chunk =>
    cases hs : chunk.slot i with
    | empty next => simp only [hs]
    | full value =>
      simp only [hs, pureClosure, silent]
      cases func (fromIndex (ci * chunkSize + i)) value <;> rfl

/-- With a closure that is a function and destructors that return, `retain` is the loop on
slabs alone. -/
theorem retain_pure (slab : ChunkSlab I T) (u : U) :
    Unwinding.retain (pureClosure func) silent (slab, u) = (.ok (), slab.retain func, u) := by
  have chunk : ∀ ci (s : ChunkSlab I T × U),
      forEach (Unwinding.retainSlot (pureClosure func) silent ci) (List.range chunkSize) s =
        (.ok (), beside (fun slab ci => (List.range chunkSize).foldl (retainSlot func ci) slab) s ci) := by
    intro ci s
    rw [forEach_total (retainSlot_pure func ci), foldl_beside]
    rfl
  rw [Unwinding.retain, forEach_total chunk, foldl_beside]
  rfl

end Pure

section Asking

/-- A destructor that returns. -/
def returning (drop : T → U → U) : Destructor T U := fun value u => (some (), drop value u)

/-- A closure that writes down what it is asked. -/
def noting (func : Closure I T U) : Closure I T (U × List (I × T)) :=
  fun key value u =>
    let r := func key value u.1
    (r.1, r.2, u.2 ++ [(key, value)])

def besideNotes (drop : T → U → U) (value : T) (u : U × List (I × T)) : U × List (I × T) :=
  (drop value u.1, u.2)

omit [ChunkSlabKey I] in
/-- A survey asks about the values in their order, up to one where the closure unwinds. -/
theorem survey_notes (func : Closure I T U) (drop : T → U → U) (l : List (I × T))
    (u : U × List (I × T)) :
    ∃ asked, (survey (noting func) (returning (besideNotes drop)) l u).2.2.2 = u.2 ++ asked ∧
      asked <+: l ∧ ((survey (noting func) (returning (besideNotes drop)) l u).1 = .ok () →
        asked = l) := by
  induction l generalizing u with
  | nil => exact ⟨[], (List.append_nil _).symm, List.prefix_refl _, fun _ => rfl⟩
  | cons e l ih =>
    obtain ⟨key, value⟩ := e
    simp only [survey, noting, returning]
    rcases func key value u.1 with ⟨_ | _ | _, u₁⟩
    · exact ⟨[(key, value)], rfl, List.prefix_append _ l, nofun⟩
    · obtain ⟨asked, notes, first, all⟩ := ih (drop value u₁, u.2 ++ [(key, value)])
      refine ⟨(key, value) :: asked, ?_, (List.prefix_cons_inj _).mpr first,
        fun ended => congrArg _ (all ended)⟩
      exact notes.trans (List.append_assoc _ _ _)
    · obtain ⟨asked, notes, first, all⟩ := ih (u₁, u.2 ++ [(key, value)])
      refine ⟨(key, value) :: asked, ?_, (List.prefix_cons_inj _).mpr first,
        fun ended => congrArg _ (all ended)⟩
      exact notes.trans (List.append_assoc _ _ _)

omit [ChunkSlabKey I] in
theorem survey_returning (func : Closure I T U) (drop : T → U → U) (l : List (I × T)) (u : U)
    (k : I) : (survey func (returning drop) l u).1 ≠ .error (.destructor k) := by
  induction l generalizing u with
  | nil => nofun
  | cons e l ih =>
    obtain ⟨key, value⟩ := e
    simp only [survey, returning]
    rcases func key value u with ⟨_ | _ | _, u₁⟩
    · nofun
    · exact ih (drop value u₁)
    · exact ih u₁

theorem abandon_of_ne {slab : ChunkSlab I T} {ending : Except (Unwound I) Unit}
    (other : ∀ k, ending ≠ .error (.destructor k)) : slab.abandon ending = slab := by
  rcases ending with (key | key) | ⟨⟩
  · rfl
  · exact absurd rfl (other key)
  · rfl

variable [LawfulSlabKey I]

/-- `retain` with a closure that has a state and may panic removes what the closure refuses,
key after key as `remove` would, and stops where the closure unwinds. It asks about every
value once, in the order of the keys. -/
theorem retain_is_bulk_remove {slab : ChunkSlab I T} (wf : WellFormed slab) (func : Closure I T U)
    (drop : T → U → U) (u : U) :
    (let r := survey func (returning drop) slab.iter u;
      Unwinding.retain func (returning drop) (slab, u) = (r.1, removeAll slab r.2.1, r.2.2)) ∧
    (let r := Unwinding.retain (noting func) (returning (besideNotes drop)) (slab, u, []);
      r.2.2.2 <+: slab.iter ∧ (r.1 = .ok () → r.2.2.2 = slab.iter)) ∧
    slab.iter.Pairwise (fun a b => intoIndex a.1 < intoIndex b.1) ∧
    ∀ k v, (k, v) ∈ slab.iter ↔ slab.get k = some v := by
  refine ⟨?_, ?_, iter_ascending wf, mem_iter wf⟩
  · rw [retain_eq wf, settle, abandon_of_ne (survey_returning func drop slab.iter u)]
  · obtain ⟨asked, notes, first, all⟩ := survey_notes func drop slab.iter (u, [])
    rw [retain_eq wf, settle]
    dsimp only
    rw [notes]
    exact ⟨first, all⟩

theorem insert_wellFormed {slab : ChunkSlab Nat T} (wf : WellFormed slab) (value : T) :
    WellFormed (slab.insert value).2 := by
  obtain ⟨k, after, inserted, spec⟩ := insert_spec wf value rfl
  rw [inserted]
  exact spec.wf

/-- Two values, of which the closure refuses the first. -/
def pair : ChunkSlab Nat Nat := ((new.insert 7).2.insert 8).2

theorem pair_wellFormed : WellFormed pair := insert_wellFormed (insert_wellFormed new_wellFormed 7) 8

/-- Refuses the key zero and unwinds at any other. -/
def capricious : Closure Nat Nat Nat :=
  fun key _ u => (if key = 0 then some false else none, u + 1)

theorem retain_is_bulk_remove_pair :
    Unwinding.retain capricious (returning fun _ u => u) (pair, 0) =
      (.error (.closure 1), removeAll pair [0], 2) := by
  obtain ⟨bulk, -⟩ := retain_is_bulk_remove pair_wellFormed capricious (fun _ u => u) 0
  have ends : survey capricious (returning fun _ u => u) pair.iter 0 =
      (.error (.closure 1), [0], 2) := by decide +kernel
  dsimp only at bulk
  rw [bulk, ends]

end Asking

section Destructors

/-- The operations that take values out of a slab. -/
inductive Removal (I T U : Type) where
  | remove (key : I)
  | retain (func : Closure I T U)

def Removal.run (drop : Destructor T U) :
    Removal I T U → ChunkSlab I T × U → Ended (Unwound I) (ChunkSlab I T × U)
  | .remove key => Unwinding.remove drop key
  | .retain func => Unwinding.retain func drop

variable [LawfulSlabKey I]

theorem remove_wellFormed {slab : ChunkSlab I T} (wf : WellFormed slab) (k : I) :
    WellFormed (slab.remove k).2 := by
  cases hv : slab.get k with
  | none =>
    rw [remove_none hv]
    exact wf
  | some v =>
    obtain ⟨after, taken, spec⟩ := remove_some wf hv
    rw [taken]
    exact spec.wf

theorem remove_get_other {slab : ChunkSlab I T} (wf : WellFormed slab) {j k : I} (other : j ≠ k) :
    (slab.remove k).2.get j = slab.get j := by
  cases hv : slab.get k with
  | none => rw [remove_none hv]
  | some v =>
    obtain ⟨after, taken, spec⟩ := remove_some wf hv
    rw [taken]
    exact spec.others j other

/-- The value whose destructor unwinds is still in its slot when the keys refused before it
are gone. -/
theorem survey_destructor {func : Closure I T U} {drop : Destructor T U} {l : List (I × T)}
    {slab : ChunkSlab I T} (wf : WellFormed slab) (distinct : (l.map Prod.fst).Nodup)
    (present : ∀ k v, (k, v) ∈ l → slab.get k = some v) {u u' : U} {k : I} {keys : List I}
    (ended : survey func drop l u = (.error (.destructor k), keys, u')) :
    WellFormed (removeAll slab keys) ∧ ∃ v, (removeAll slab keys).get k = some v := by
  induction l generalizing slab u keys with
  | nil => cases ended
  | cons e l ih =>
    obtain ⟨key, value⟩ := e
    obtain ⟨fresh, distinct⟩ := List.nodup_cons.mp distinct
    have later : ∀ k v, (k, v) ∈ l → slab.get k = some v :=
      fun k v member => present k v (List.mem_cons_of_mem _ member)
    rcases asked : func key value u with ⟨_ | _ | _, u₁⟩
    · simp only [survey, asked] at ended
      cases ended
    · rcases dropped : drop value u₁ with ⟨_ | _, u₂⟩
      · simp only [survey, asked, dropped] at ended
        cases ended
        exact ⟨wf, value, present k value List.mem_cons_self⟩
      · rcases rest : survey func drop l u₂ with ⟨ending, keys₁, u₃⟩
        simp only [survey, asked, dropped, rest] at ended
        cases ended
        refine ih (remove_wellFormed wf key) distinct (fun j v member => ?_) rest
        have other : j ≠ key := by
          rintro rfl
          exact fresh (List.mem_map.mpr ⟨(j, v), member, rfl⟩)
        rw [remove_get_other wf other]
        exact later j v member
    · simp only [survey, asked] at ended
      exact ih wf distinct later ended

omit [LawfulSlabKey I] in
/-- An emptied slot that `len` still counts. -/
theorem abandon_not_wellFormed {slab : ChunkSlab I T} (wf : WellFormed slab) {k : I} {v : T}
    (present : slab.get k = some v) (ending : Except (Unwound I) Unit)
    (unwound : ending = .error (.destructor k)) : ¬ WellFormed (slab.abandon ending) := by
  subst unwound
  intro after
  have slot := (get_some_iff slab k v).mp present
  have fewer := count_setEntry slab (fun _ => true) (.empty slab.next) slot
  have old := wf.len
  have new : slab.len = _ := after.len
  simp only [Entry.holds, Count.weight_true, Count.weight_false, abandon] at fewer new
  omega

/-- A slab whose user code unwound in a destructor is well formed exactly after `remove`. -/
theorem wellFormed_after_destructor {slab after : ChunkSlab I T} (wf : WellFormed slab)
    (op : Removal I T U) (drop : Destructor T U) {u u' : U} {k : I}
    (unwound : op.run drop (slab, u) = (.error (.destructor k), after, u')) :
    WellFormed after ↔ ∃ key, op = .remove key := by
  cases op with
  | remove key =>
    refine iff_of_true ?_ ⟨key, rfl⟩
    have kept := remove_wellFormed wf key
    rcases taken : slab.remove key with ⟨_ | value, left⟩
    · simp only [Removal.run, Unwinding.remove, taken] at unwound
      cases unwound
    · rw [taken] at kept
      rcases dropped : drop value u with ⟨_ | _, u₁⟩
      · simp only [Removal.run, Unwinding.remove, taken, dropped] at unwound
        cases unwound
        exact kept
      · simp only [Removal.run, Unwinding.remove, taken, dropped] at unwound
        cases unwound
  | retain func =>
    refine iff_of_false ?_ nofun
    rcases ended : survey func drop slab.iter u with ⟨ending, keys, u₁⟩
    have left : settle slab (survey func drop slab.iter u) = (.error (.destructor k), after, u') :=
      (retain_eq wf func drop u).symm.trans unwound
    rw [ended] at left
    cases left
    have distinct : (slab.iter.map Prod.fst).Nodup := by
      rw [List.Nodup, List.pairwise_map]
      exact (iter_ascending wf).imp (fun below same => Nat.ne_of_lt below (congrArg intoIndex same))
    obtain ⟨kept, v, present⟩ := survey_destructor wf distinct
      (fun k v member => (mem_iter wf k v).mp member) ended
    exact abandon_not_wellFormed kept present _ rfl

/-- A destructor that unwinds. -/
def failing : Destructor T U := fun _ u => (none, u)

def refuseAll : Closure I T U := fun _ _ u => (some false, u)

/-- The slot of the first value is empty, and `len` is still two. -/
theorem retain_loses_slot :
    let r := Removal.run failing (.retain refuseAll) (pair, ());
    WellFormed pair ∧ r.1 = .error (.destructor 0) ∧ r.2.1.len = 2 ∧ r.2.1.count (fun _ => true) = 1 ∧
      ¬ WellFormed r.2.1 :=
  ⟨pair_wellFormed, by decide +kernel, by decide +kernel, by decide +kernel,
    fun wf => absurd wf.len (by decide +kernel)⟩

theorem wellFormed_after_destructor_remove :
    let r := Removal.run failing (.remove 1) (pair, ());
    r.1 = .error (.destructor 1) ∧ (WellFormed r.2.1 ↔ ∃ key, (.remove 1 : Removal Nat Nat Unit) =
      .remove key) := by
  have ends : (Removal.run failing (.remove 1) (pair, ())).1 = .error (.destructor 1) := by
    decide +kernel
  exact ⟨ends, wellFormed_after_destructor pair_wellFormed (.remove 1) failing (Prod.ext ends rfl)⟩

end Destructors
end Juggle.Utils.ChunkSlab
