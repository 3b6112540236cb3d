import Juggle.Dy.Task
import Juggle.Utils.Retain
import Juggle.Lib.Run

/-! The borrow flags of `dy/registry.rs` in a debug build. Any code may hold references and
iterators while it calls the registry, and the flags refuse what would take a task away
from under them. A value stands for the object itself, whatever is written to its cells. -/
namespace Juggle.Dy
open Juggle.Utils Juggle.Runs Juggle.Utils.ChunkSlab

inductive BorrowPanic where
  | iterateInRetain
  | retainBorrowed
  | borrowInRetain
  | insertInRetain
  | insertInIteration
  | removeInRetain
  | removeBorrowed
  deriving DecidableEq

def BorrowPanic.message : BorrowPanic → String
  | .iterateInRetain => "Registry: Cannot iterate during retain operation."
  | .retainBorrowed => "Registry: Cannot remove tasks that might be borrowed."
  | .borrowInRetain => "Registry: Cannot borrow task during retain operation."
  | .insertInRetain => "Registry: Cannot insert task during retain operation."
  | .insertInIteration => "Registry: Cannot insert task during iteration."
  | .removeInRetain => "Registry: Cannot remove task during retain operation."
  | .removeBorrowed => "Registry: Cannot remove task that might be borrowed."

/-- `Registry` with `debug_assertions`. -/
structure DebugRegistry (T : Type) where
  slab : ChunkSlab Nat T
  borrowFlag : Nat
  iterateFlag : Nat

namespace DebugRegistry
variable {T : Type}

/-- So that incrementing it would overflow. -/
def sentinel : Nat := usizeMax

def new : DebugRegistry T := ⟨ChunkSlab.new, 0, 0⟩

def get (r : DebugRegistry T) (key : Nat) : Except BorrowPanic (Option T) × DebugRegistry T :=
  if r.borrowFlag = sentinel then (.error .borrowInRetain, r)
  else
    match r.slab.get key with
    | none => (.ok none, r)
    | some task => (.ok (some task), { r with borrowFlag := r.borrowFlag + 1 })

/-- `BorrowRef::drop`. -/
def dropRef (r : DebugRegistry T) : DebugRegistry T := { r with borrowFlag := r.borrowFlag - 1 }

def guardedIterator (r : DebugRegistry T) : Except BorrowPanic Unit × DebugRegistry T :=
  if r.iterateFlag = sentinel then (.error .iterateInRetain, r)
  else (.ok (), { r with iterateFlag := r.iterateFlag + 1 })

/-- `It::drop`. -/
def dropIter (r : DebugRegistry T) : DebugRegistry T := { r with iterateFlag := r.iterateFlag - 1 }

def guardRetain (r : DebugRegistry T) : Except BorrowPanic Unit × DebugRegistry T :=
  if r.borrowFlag ≠ 0 ∨ r.iterateFlag ≠ 0 then (.error .retainBorrowed, r)
  else (.ok (), { r with borrowFlag := sentinel, iterateFlag := sentinel })

/-- `Guard::drop` at the end of `retain`, also when the closure has panicked. -/
def dropGuard (r : DebugRegistry T) : DebugRegistry T := { r with borrowFlag := 0, iterateFlag := 0 }

def insert (r : DebugRegistry T) (val : T) : Except BorrowPanic (Option Nat) × DebugRegistry T :=
  if r.iterateFlag ≠ 0 then
    (.error (if r.iterateFlag = sentinel then .insertInRetain else .insertInIteration), r)
  else
    match r.slab.insert val with
    | (.ok key, slab) => (.ok (some key), { r with slab := slab })
    | (.error _, slab) => (.ok none, { r with slab := slab })

def remove (r : DebugRegistry T) (key : Nat) : Except BorrowPanic (Option T) × DebugRegistry T :=
  if r.borrowFlag ≠ 0 ∨ r.iterateFlag ≠ 0 then
    (.error (if r.borrowFlag = sentinel then .removeInRetain else .removeBorrowed), r)
  else
    let (val, slab) := r.slab.remove key
    (.ok val, { r with slab := slab })

def count (r : DebugRegistry T) : Nat := r.slab.len

def capacity (r : DebugRegistry T) : Nat := r.slab.capacity

/-- `slab.retain(func)`, where `func` may panic and nothing else does. -/
def sweep (r : DebugRegistry T) (func : Nat → T → Option Bool) : DebugRegistry T :=
  { r with slab :=
      (Unwinding.retain (fun key value u => (func key value, u)) (returning fun _ u => u)
        (r.slab, ())).2.1 }

end DebugRegistry

/-- An iterator, with the references it has given out. -/
structure Walk (T : Type) where
  next : Nat
  given : List (Nat × T)

/-- The registry and all that its users hold: the living `BorrowRef`s, the iterators, the
references given out by iterators that are gone, and whether `retain` is running. -/
structure Lender (T : Type) where
  reg : DebugRegistry T
  refs : List (Nat × T)
  walks : List (Walk T)
  kept : List (Nat × T)
  retaining : Bool

namespace Lender
variable {T : Type}

inductive Event (T : Type) where
  | get (key : Nat)
  | dropRef (n : Nat)
  | iter
  | next (n : Nat)
  | dropIter (n : Nat)
  | insert (val : T)
  | remove (key : Nat)
  | retain
  /-- the sweep ends or unwinds, and the guard is dropped -/
  | retained (func : Nat → T → Option Bool)

def new : Lender T := ⟨DebugRegistry.new, [], [], [], false⟩

def get (s : Lender T) (key : Nat) : Lender T :=
  match s.reg.get key with
  | (.ok (some task), reg) => { s with reg := reg, refs := (key, task) :: s.refs }
  | (_, reg) => { s with reg := reg }

def dropRef (s : Lender T) (n : Nat) : Option (Lender T) :=
  if n < s.refs.length then some { s with reg := s.reg.dropRef, refs := s.refs.eraseIdx n } else none

def iter (s : Lender T) : Lender T :=
  match s.reg.guardedIterator with
  | (.ok (), reg) => { s with reg := reg, walks := ⟨0, []⟩ :: s.walks }
  | (.error _, reg) => { s with reg := reg }

def next (s : Lender T) (n : Nat) : Option (Lender T) :=
  match s.walks[n]? with
  | none => none
  | some walk =>
    match s.reg.slab.iterFrom walk.next with
    | [] => some s
    | (key, task) :: _ =>
      some { s with walks := s.walks.set n ⟨intoIndex key + 1, (key, task) :: walk.given⟩ }

def dropIter (s : Lender T) (n : Nat) : Option (Lender T) :=
  match s.walks[n]? with
  | none => none
  | some walk =>
    some { s with reg := s.reg.dropIter, walks := s.walks.eraseIdx n, kept := walk.given ++ s.kept }

def retain (s : Lender T) : Lender T :=
  match s.reg.guardRetain with
  | (.ok (), reg) => { s with reg := reg, retaining := true }
  | (.error _, reg) => { s with reg := reg }

def retained (s : Lender T) (func : Nat → T → Option Bool) : Option (Lender T) :=
  if s.retaining then some { s with reg := (s.reg.sweep func).dropGuard, retaining := false }
  else none

/-- A call that panics leaves its caller with what it held. -/
def step (s : Lender T) : Event T → Option (Lender T)
  | .get key => some (s.get key)
  | .dropRef n => s.dropRef n
  | .iter => some s.iter
  | .next n => s.next n
  | .dropIter n => s.dropIter n
  | .insert val => some { s with reg := (s.reg.insert val).2 }
  | .remove key => some { s with reg := (s.reg.remove key).2 }
  | .retain => some s.retain
  | .retained func => s.retained func

def refusal {α : Type} : Except BorrowPanic α → Option String
  | .error e => some e.message
  | .ok _ => none

/-- The message with which a call of the registry panics. -/
def panics (s : Lender T) : Event T → Option String
  | .get key => refusal (s.reg.get key).1
  | .iter => refusal (s.reg.guardedIterator).1
  | .insert val => refusal (s.reg.insert val).1
  | .remove key => refusal (s.reg.remove key).1
  | .retain => refusal (s.reg.guardRetain).1
  | _ => none

/-- The task is where it was when the reference was made. -/
def Live (s : Lender T) (p : Nat × T) : Prop := s.reg.slab.get p.1 = some p.2

/-- The flags tell what is held, and all of that is in its place. -/
structure Guarded (s : Lender T) : Prop where
  wf : WellFormed s.reg.slab
  counts : s.retaining = false →
    s.reg.borrowFlag = s.refs.length ∧ s.reg.iterateFlag = s.walks.length
  closed : s.retaining = true → s.refs = [] ∧ s.walks = [] ∧
    s.reg.borrowFlag = DebugRegistry.sentinel ∧ s.reg.iterateFlag = DebugRegistry.sentinel
  refs : ∀ p ∈ s.refs, s.Live p
  given : ∀ walk ∈ s.walks, ∀ p ∈ walk.given, s.Live p

theorem new_guarded : Guarded (new : Lender T) where
  wf := new_wellFormed
  counts _ := ⟨rfl, rfl⟩
  closed busy := by cases busy
  refs p mem := by cases mem
  given walk mem := by cases mem

/-- Flags that are not the sentinel's belong to a registry that can be used. -/
theorem Guarded.idle {s : Lender T} (guarded : Guarded s)
    (free : s.reg.borrowFlag ≠ DebugRegistry.sentinel ∨ s.reg.iterateFlag ≠ DebugRegistry.sentinel) :
    s.retaining = false := by
  cases busy : s.retaining with
  | false => rfl
  | true =>
    obtain ⟨_, _, borrow, iterate⟩ := guarded.closed busy
    exact absurd (free.resolve_left (fun bad => bad borrow)) (fun bad => bad iterate)

/-- With both flags down nothing is held. -/
theorem Guarded.alone {s : Lender T} (guarded : Guarded s)
    (free : ¬ (s.reg.borrowFlag ≠ 0 ∨ s.reg.iterateFlag ≠ 0)) :
    s.retaining = false ∧ s.refs = [] ∧ s.walks = [] := by
  obtain ⟨borrow, iterate⟩ := not_or.mp free
  have borrow : s.reg.borrowFlag = 0 := not_not.mp borrow
  have iterate : s.reg.iterateFlag = 0 := not_not.mp iterate
  have idle : s.retaining = false := guarded.idle (.inl (by rw [borrow]; simp [DebugRegistry.sentinel, usizeMax]))
  obtain ⟨refs, walks⟩ := guarded.counts idle
  exact ⟨idle, List.length_eq_zero_iff.mp (by omega), List.length_eq_zero_iff.mp (by omega)⟩

theorem get_guarded {s : Lender T} (guarded : Guarded s) (key : Nat) : Guarded (s.get key) := by
  unfold get DebugRegistry.get
  by_cases busy : s.reg.borrowFlag = DebugRegistry.sentinel
  · simp only [busy, if_true]
    exact guarded
  · simp only [busy, if_false]
    have idle := guarded.idle (.inl busy)
    obtain ⟨refs, walks⟩ := guarded.counts idle
    cases found : s.reg.slab.get key with
    | none => exact guarded
    | some task =>
      constructor
      case wf => exact guarded.wf
      case counts => exact fun _ => ⟨congrArg Nat.succ refs, walks⟩
      case closed => exact fun bad => by simp [idle] at bad
      case refs =>
        intro p mem
        rcases List.mem_cons.mp mem with rfl | mem
        · exact found
        · exact guarded.refs p mem
      case given => exact guarded.given

theorem dropRef_guarded {s s' : Lender T} {n : Nat} (guarded : Guarded s)
    (h : s.dropRef n = some s') : Guarded s' := by
  unfold dropRef at h
  split at h
  case isFalse => cases h
  rename_i bound
  cases h
  have idle : s.retaining = false := by
    cases busy : s.retaining with
    | false => rfl
    | true => simp [(guarded.closed busy).1] at bound
  obtain ⟨refs, walks⟩ := guarded.counts idle
  constructor
  case wf => exact guarded.wf
  case counts =>
    intro _
    refine ⟨?_, walks⟩
    show s.reg.borrowFlag - 1 = _
    rw [List.length_eraseIdx_of_lt bound, refs]
  case closed => exact fun bad => by simp [idle] at bad
  case refs => exact fun p mem => guarded.refs p (List.mem_of_mem_eraseIdx mem)
  case given => exact guarded.given

theorem iter_guarded {s : Lender T} (guarded : Guarded s) : Guarded s.iter := by
  unfold iter DebugRegistry.guardedIterator
  by_cases busy : s.reg.iterateFlag = DebugRegistry.sentinel
  · simp only [busy, if_true]
    exact guarded
  · simp only [busy, if_false]
    have idle := guarded.idle (.inr busy)
    obtain ⟨refs, walks⟩ := guarded.counts idle
    constructor
    case wf => exact guarded.wf
    case counts => exact fun _ => ⟨refs, congrArg Nat.succ walks⟩
    case closed => exact fun bad => by simp [idle] at bad
    case refs => exact guarded.refs
    case given =>
      intro walk mem p given
      rcases List.mem_cons.mp mem with rfl | mem
      · cases given
      · exact guarded.given walk mem p given

theorem iterFrom_subset (slab : ChunkSlab Nat T) (n : Nat) : slab.iterFrom n ⊆ slab.iter := by
  induction n with
  | zero => exact iterFrom_zero slab ▸ List.Subset.refl _
  | succ n ih =>
    cases slot : slab.slots[n]? with
    | some e =>
      rw [iterFrom_step slot] at ih
      exact List.Subset.trans (List.subset_append_right _ _) ih
    | none =>
      have past := List.getElem?_eq_none_iff.mp slot
      rw [iterFrom, List.drop_eq_nil_of_le (by omega)]
      exact List.nil_subset _

theorem next_guarded {s s' : Lender T} {n : Nat} (guarded : Guarded s) (h : s.next n = some s') :
    Guarded s' := by
  unfold next at h
  split at h
  · cases h
  rename_i walk found
  split at h
  · cases h
    exact guarded
  rename_i key task rest listed
  cases h
  have live : s.reg.slab.get key = some task := by
    refine (mem_iter guarded.wf key task).mp (iterFrom_subset _ walk.next ?_)
    rw [listed]
    exact List.mem_cons_self
  constructor
  case wf => exact guarded.wf
  case counts => exact fun idle => by simpa using guarded.counts idle
  case closed =>
    intro busy
    have empty := (guarded.closed busy).2.1
    simp [empty] at found
  case refs => exact guarded.refs
  case given =>
    intro walk' mem p given
    rcases List.mem_or_eq_of_mem_set mem with mem | rfl
    · exact guarded.given walk' mem p given
    · rcases List.mem_cons.mp given with rfl | given
      · exact live
      · exact guarded.given walk (List.mem_of_getElem? found) p given

theorem dropIter_guarded {s s' : Lender T} {n : Nat} (guarded : Guarded s)
    (h : s.dropIter n = some s') : Guarded s' := by
  unfold dropIter at h
  split at h
  · cases h
  rename_i walk found
  cases h
  have idle : s.retaining = false := by
    cases busy : s.retaining with
    | false => rfl
    | true => simp [(guarded.closed busy).2.1] at found
  obtain ⟨refs, walks⟩ := guarded.counts idle
  have bound := (List.getElem?_eq_some_iff.mp found).1
  constructor
  case wf => exact guarded.wf
  case counts =>
    intro _
    refine ⟨refs, ?_⟩
    show s.reg.iterateFlag - 1 = _
    rw [List.length_eraseIdx_of_lt bound, walks]
  case closed => exact fun bad => by simp [idle] at bad
  case refs => exact guarded.refs
  case given => exact fun walk' mem => guarded.given walk' (List.mem_of_mem_eraseIdx mem)

/-- A value is put into an empty slot, so nothing that is held moves. -/
theorem insert_guarded {s : Lender T} (guarded : Guarded s) (val : T) :
    Guarded { s with reg := (s.reg.insert val).2 } := by
  unfold DebugRegistry.insert
  by_cases walked : s.reg.iterateFlag = 0
  · rw [if_neg (not_not.mpr walked)]
    obtain ⟨k, after, inserted, spec⟩ := insert_spec guarded.wf val rfl
    simp only [inserted]
    have stays : ∀ p, s.Live p → after.get p.1 = some p.2 := by
      intro p live
      have other : p.1 ≠ k := by
        intro same
        have bound : s.reg.slab.get k = some p.2 := same ▸ live
        rw [spec.fresh] at bound
        cases bound
      exact (spec.others p.1 other).trans live
    exact ⟨spec.wf, guarded.counts, guarded.closed, fun p mem => stays p (guarded.refs p mem),
      fun walk mem p given => stays p (guarded.given walk mem p given)⟩
  · rw [if_pos walked]
    exact guarded

/-- A registry from which nothing is held may change in any way. -/
theorem Guarded.replaced {s : Lender T} (guarded : Guarded s) (idle : s.retaining = false)
    (refs : s.refs = []) (walks : s.walks = []) {slab : ChunkSlab Nat T} (wf : WellFormed slab) :
    Guarded { s with reg := { s.reg with slab := slab } } where
  wf := wf
  counts := guarded.counts
  closed busy := by simp [idle] at busy
  refs p mem := by simp [refs] at mem
  given walk mem := by simp [walks] at mem

theorem remove_guarded {s : Lender T} (guarded : Guarded s) (key : Nat) :
    Guarded { s with reg := (s.reg.remove key).2 } := by
  unfold DebugRegistry.remove
  by_cases held : s.reg.borrowFlag ≠ 0 ∨ s.reg.iterateFlag ≠ 0
  · rw [if_pos held]
    exact guarded
  · rw [if_neg held]
    obtain ⟨idle, refs, walks⟩ := guarded.alone held
    exact guarded.replaced idle refs walks (remove_wellFormed guarded.wf key)

theorem retain_guarded {s : Lender T} (guarded : Guarded s) : Guarded s.retain := by
  unfold retain DebugRegistry.guardRetain
  by_cases held : s.reg.borrowFlag ≠ 0 ∨ s.reg.iterateFlag ≠ 0
  · simp only [if_pos held]
    exact guarded
  · simp only [if_neg held]
    obtain ⟨idle, refs, walks⟩ := guarded.alone held
    exact ⟨guarded.wf, fun bad => absurd bad (by simp), fun _ => ⟨refs, walks, rfl, rfl⟩,
      guarded.refs, guarded.given⟩

theorem removeAll_wellFormed {slab : ChunkSlab Nat T} (wf : WellFormed slab) (keys : List Nat) :
    WellFormed (removeAll slab keys) := by
  induction keys generalizing slab with
  | nil => exact wf
  | cons key keys ih => exact ih (remove_wellFormed wf key)

theorem sweep_wellFormed {r : DebugRegistry T} (wf : WellFormed r.slab) (func : Nat → T → Option Bool) :
    WellFormed (r.sweep func).slab := by
  unfold DebugRegistry.sweep
  simp only [retain_eq wf, settle]
  rw [abandon_of_ne (survey_returning _ _ _ _)]
  exact removeAll_wellFormed wf _

theorem retained_guarded {s s' : Lender T} {func : Nat → T → Option Bool} (guarded : Guarded s)
    (h : s.retained func = some s') : Guarded s' := by
  unfold retained at h
  split at h
  case isFalse => cases h
  rename_i busy
  cases h
  obtain ⟨refs, walks, _⟩ := guarded.closed busy
  constructor
  case wf => exact sweep_wellFormed guarded.wf func
  case counts => exact fun _ => ⟨(congrArg List.length refs).symm, (congrArg List.length walks).symm⟩
  case closed => exact fun bad => by cases bad
  case refs => exact fun p mem => by simp [refs] at mem
  case given => exact fun walk mem => by simp [walks] at mem

theorem guarded_step (s : Lender T) (e : Event T) (s' : Lender T) (guarded : Guarded s)
    (h : s.step e = some s') : Guarded s' := by
  cases e with
  | get key => exact Option.some.inj h ▸ get_guarded guarded key
  | dropRef n => exact dropRef_guarded guarded h
  | iter => exact Option.some.inj h ▸ iter_guarded guarded
  | next n => exact next_guarded guarded h
  | dropIter n => exact dropIter_guarded guarded h
  | insert val => exact Option.some.inj h ▸ insert_guarded guarded val
  | remove key => exact Option.some.inj h ▸ remove_guarded guarded key
  | retain => exact Option.some.inj h ▸ retain_guarded guarded
  | retained func => exact retained_guarded guarded h

/-- Somebody could still use what `remove` or `retain` would take away. -/
def Held (s : Lender T) : Prop := s.retaining = true ∨ s.refs ≠ [] ∨ s.walks ≠ []

theorem Guarded.held_iff {s : Lender T} (guarded : Guarded s) :
    (s.reg.borrowFlag ≠ 0 ∨ s.reg.iterateFlag ≠ 0) ↔ s.Held := by
  constructor
  · intro up
    by_contra none
    obtain ⟨idle, rest⟩ := not_or.mp none
    obtain ⟨refs, walks⟩ := not_or.mp rest
    obtain ⟨borrow, iterate⟩ := guarded.counts (by simpa using idle)
    rw [borrow, iterate, not_not.mp refs, not_not.mp walks] at up
    simp at up
  · intro held
    by_contra down
    obtain ⟨idle, refs, walks⟩ := guarded.alone down
    rcases held with busy | some | some
    · simp [idle] at busy
    · exact some refs
    · exact some walks

theorem Guarded.borrow_iff {s : Lender T} (guarded : Guarded s)
    (few : s.refs.length < DebugRegistry.sentinel) :
    s.reg.borrowFlag = DebugRegistry.sentinel ↔ s.retaining = true := by
  constructor
  · intro locked
    by_contra idle
    obtain ⟨borrow, _⟩ := guarded.counts (by simpa using idle)
    omega
  · exact fun busy => (guarded.closed busy).2.2.1

theorem Guarded.iterate_iff {s : Lender T} (guarded : Guarded s)
    (few : s.walks.length < DebugRegistry.sentinel) :
    s.reg.iterateFlag = DebugRegistry.sentinel ↔ s.retaining = true := by
  constructor
  · intro locked
    by_contra idle
    obtain ⟨_, iterate⟩ := guarded.counts (by simpa using idle)
    omega
  · exact fun busy => (guarded.closed busy).2.2.2

theorem get_panics {s : Lender T} (guarded : Guarded s)
    (few : s.refs.length < DebugRegistry.sentinel) (key : Nat) :
    s.panics (.get key) =
      if s.retaining then some "Registry: Cannot borrow task during retain operation." else none := by
  have locked := guarded.borrow_iff few
  simp only [panics, DebugRegistry.get]
  by_cases busy : s.retaining = true
  · rw [if_pos (locked.mpr busy), if_pos busy]
    rfl
  · rw [if_neg (locked.not.mpr busy), if_neg busy]
    split <;> rfl

theorem iter_panics {s : Lender T} (guarded : Guarded s)
    (few : s.walks.length < DebugRegistry.sentinel) :
    s.panics .iter =
      if s.retaining then some "Registry: Cannot iterate during retain operation." else none := by
  have locked := guarded.iterate_iff few
  simp only [panics, DebugRegistry.guardedIterator]
  by_cases busy : s.retaining = true
  · rw [if_pos (locked.mpr busy), if_pos busy]
    rfl
  · rw [if_neg (locked.not.mpr busy), if_neg busy]
    rfl

theorem insert_panics {s : Lender T} (guarded : Guarded s)
    (few : s.walks.length < DebugRegistry.sentinel) (val : T) :
    s.panics (.insert val) =
      if s.retaining then some "Registry: Cannot insert task during retain operation."
      else if s.walks.isEmpty then none
      else some "Registry: Cannot insert task during iteration." := by
  have locked := guarded.iterate_iff few
  simp only [panics, DebugRegistry.insert]
  by_cases busy : s.retaining = true
  · have flag := locked.mpr busy
    have up : s.reg.iterateFlag ≠ 0 := by simp [flag, DebugRegistry.sentinel, usizeMax]
    rw [if_pos up, if_pos flag, if_pos busy]
    rfl
  · obtain ⟨_, iterate⟩ := guarded.counts (by simpa using busy)
    rw [if_neg busy]
    cases walks : s.walks with
    | nil =>
      rw [if_neg (by simp [iterate, walks])]
      split <;> rfl
    | cons walk rest =>
      rw [if_pos (by simp [iterate, walks]), if_neg (locked.not.mpr busy)]
      rfl

theorem remove_panics {s : Lender T} (guarded : Guarded s)
    (few : s.refs.length < DebugRegistry.sentinel) (key : Nat) :
    s.panics (.remove key) =
      if s.retaining then some "Registry: Cannot remove task during retain operation."
      else if s.refs.isEmpty && s.walks.isEmpty then none
      else some "Registry: Cannot remove task that might be borrowed." := by
  have locked := guarded.borrow_iff few
  have held := guarded.held_iff
  simp only [panics, DebugRegistry.remove]
  by_cases busy : s.retaining = true
  · rw [if_pos (held.mpr (.inl busy)), if_pos (locked.mpr busy), if_pos busy]
    rfl
  · rw [if_neg busy]
    by_cases free : (s.refs.isEmpty && s.walks.isEmpty) = true
    · have none : ¬ s.Held := by simpa [Held, busy] using free
      rw [if_neg (held.not.mpr none), if_pos free]
      rfl
    · have some : s.Held := by
        by_contra none
        exact free (by simpa [Held, busy] using none)
      rw [if_pos (held.mpr some), if_neg (locked.not.mpr busy), if_neg free]
      rfl

theorem retain_panics {s : Lender T} (guarded : Guarded s) :
    s.panics .retain =
      if s.retaining || !(s.refs.isEmpty && s.walks.isEmpty)
      then some "Registry: Cannot remove tasks that might be borrowed." else none := by
  have held := guarded.held_iff
  simp only [panics, DebugRegistry.guardRetain]
  by_cases free : (s.retaining || !(s.refs.isEmpty && s.walks.isEmpty)) = true
  · have some : s.Held := by
      by_contra none
      simp [Held] at none
      simp [none] at free
    rw [if_pos (held.mpr some), if_pos free]
    rfl
  · have none : ¬ s.Held := by
      simp at free
      simp [Held, free]
    rw [if_neg (held.not.mpr none), if_neg free]
    rfl

/-- A call that panics changes nothing. -/
theorem panics_unchanged {s : Lender T} {e : Event T} (refused : s.panics e ≠ none) :
    s.step e = some s := by
  cases e with
  | get key =>
    simp only [panics, DebugRegistry.get] at refused
    simp only [step, get, DebugRegistry.get]
    split at refused
    · rename_i busy
      rw [if_pos busy]
    · split at refused <;> exact absurd rfl refused
  | iter =>
    simp only [panics, DebugRegistry.guardedIterator] at refused
    simp only [step, iter, DebugRegistry.guardedIterator]
    split at refused
    · rename_i busy
      rw [if_pos busy]
    · exact absurd rfl refused
  | insert val =>
    simp only [panics, DebugRegistry.insert] at refused
    simp only [step, DebugRegistry.insert]
    split at refused
    · rename_i walked
      rw [if_pos walked]
    · split at refused <;> exact absurd rfl refused
  | remove key =>
    simp only [panics, DebugRegistry.remove] at refused
    simp only [step, DebugRegistry.remove]
    split at refused
    · rename_i held
      rw [if_pos held]
    · exact absurd rfl refused
  | retain =>
    simp only [panics, DebugRegistry.guardRetain] at refused
    simp only [step, retain, DebugRegistry.guardRetain]
    split at refused
    · rename_i held
      rw [if_pos held]
    · exact absurd rfl refused
  | _ => exact absurd rfl refused

/-- In every run of a debug build each living `BorrowRef`, and each reference from an
iterator that is still there, stands for a task in its place; `remove` and `retain` go
ahead exactly when there is no such thing, and each call panics just in the case that its
message names. -/
theorem references_stay {s : Lender T} {es : List (Event T)} (run : exec step new es = some s) :
    (∀ p ∈ s.refs, s.Live p) ∧ (∀ walk ∈ s.walks, ∀ p ∈ walk.given, s.Live p) ∧
      (∀ key, (∃ val, (s.reg.remove key).1 = .ok val) ↔ ¬ s.Held) ∧
      ((s.reg.guardRetain).1 = .ok () ↔ ¬ s.Held) ∧
      (s.refs.length < DebugRegistry.sentinel → s.walks.length < DebugRegistry.sentinel →
        (∀ key, s.panics (.get key) =
          if s.retaining then some "Registry: Cannot borrow task during retain operation."
          else none) ∧
        (s.panics .iter =
          if s.retaining then some "Registry: Cannot iterate during retain operation."
          else none) ∧
        (∀ val, s.panics (.insert val) =
          if s.retaining then some "Registry: Cannot insert task during retain operation."
          else if s.walks.isEmpty then none
          else some "Registry: Cannot insert task during iteration.") ∧
        (∀ key, s.panics (.remove key) =
          if s.retaining then some "Registry: Cannot remove task during retain operation."
          else if s.refs.isEmpty && s.walks.isEmpty then none
          else some "Registry: Cannot remove task that might be borrowed.") ∧
        (s.panics .retain =
          if s.retaining || !(s.refs.isEmpty && s.walks.isEmpty)
          then some "Registry: Cannot remove tasks that might be borrowed." else none)) ∧
      ∀ e, s.panics e ≠ none → s.step e = some s := by
  have guarded := invariant_run guarded_step new_guarded run
  refine ⟨guarded.refs, guarded.given, fun key => ?_, ?_, fun refs walks =>
    ⟨get_panics guarded refs, iter_panics guarded walks, insert_panics guarded walks,
      remove_panics guarded refs, retain_panics guarded⟩, fun e => panics_unchanged⟩
  · rw [← guarded.held_iff]
    unfold DebugRegistry.remove
    by_cases held : s.reg.borrowFlag ≠ 0 ∨ s.reg.iterateFlag ≠ 0
    · simp [held]
    · simp [held]
  · rw [← guarded.held_iff]
    unfold DebugRegistry.guardRetain
    by_cases held : s.reg.borrowFlag ≠ 0 ∨ s.reg.iterateFlag ≠ 0
    · simp [held]
    · simp [held]

/-- A reference and an iterator are held while a removal is tried, and then given back. -/
def heldRemoval : List (Event Nat) :=
  [.insert 7, .insert 8, .get 0, .iter, .next 0, .next 0, .remove 1, .insert 9]

theorem references_stay_held : ∃ s, exec step (new : Lender Nat) heldRemoval = some s ∧
    s.refs = [(0, 7)] ∧ s.walks.map Walk.given = [[(1, 8), (0, 7)]] ∧ s.reg.slab.get 1 = some 8 ∧
    (¬ ∃ val, (s.reg.remove 1).1 = .ok val) ∧
    s.panics (.remove 1) = some "Registry: Cannot remove task that might be borrowed." ∧
    s.panics (.insert 9) = some "Registry: Cannot insert task during iteration." := by
  have run : exec step (new : Lender Nat) heldRemoval =
      some (last step (new : Lender Nat) heldRemoval) := exec_last (by decide +kernel)
  have refs : (last step (new : Lender Nat) heldRemoval).refs = [(0, 7)] := by decide +kernel
  have walks : (last step (new : Lender Nat) heldRemoval).walks.map Walk.given =
      [[(1, 8), (0, 7)]] := by decide +kernel
  obtain ⟨_, _, removes, _, messages, _⟩ := references_stay run
  obtain ⟨_, _, insert, remove, _⟩ := messages (by decide +kernel) (by decide +kernel)
  refine ⟨_, run, refs, walks, by decide +kernel, fun removed => (removes 1).mp removed ?_,
    (remove 1).trans (by decide +kernel), (insert 9).trans (by decide +kernel)⟩
  exact .inr (.inl (by simp [refs]))

/-- A reference that an iterator has given out is not counted once the iterator is gone. -/
theorem kept_reference_dangles : ∃ s p,
    exec step (new : Lender Nat) [.insert 7, .iter, .next 0, .dropIter 0, .remove 0] = some s ∧
      p ∈ s.kept ∧ ¬ s.Live p := by
  have run : exec step (new : Lender Nat) [.insert 7, .iter, .next 0, .dropIter 0, .remove 0] =
      some (last step new [.insert 7, .iter, .next 0, .dropIter 0, .remove 0]) :=
    exec_last (by decide +kernel)
  refine ⟨_, (0, 7), run, by decide +kernel, ?_⟩
  unfold Live
  decide +kernel

end Lender
end Juggle.Dy
