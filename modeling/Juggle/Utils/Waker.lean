import Juggle.Lib.Count
import Juggle.Lib.Run

/-! Wakers made from one `Arc`. Each of the four functions behind a waker rebuilds the `Arc`
from the raw pointer and drops it at the end of its scope, or keeps it from being dropped.
Handles are owned or borrowed as the language demands; the wake of the user is a call that
other threads, or the call itself, may fill with any other steps. -/
namespace Juggle.Utils.Wakers
open Juggle.Runs Juggle.Count

/-- What the pointers point to: the strong count, how often the value was dropped and how
often its `wake` was called. -/
structure Inner where
  strong : Nat
  dropped : Nat
  woken : Nat

namespace Inner

/-- `Arc::clone`. There is no result once the value is gone. -/
def clone (inner : Inner) : Option Inner :=
  if inner.strong = 0 then none else some { inner with strong := inner.strong + 1 }

/-- The drop of an `Arc`; the last one drops the value. -/
def release (inner : Inner) : Option Inner :=
  match inner.strong with
  | 0 => none
  | 1 => some { inner with strong := 0, dropped := inner.dropped + 1 }
  | n + 2 => some { inner with strong := n + 1 }

/-- The call of the user's `wake` on the value. -/
def wake (inner : Inner) : Option Inner :=
  if inner.strong = 0 then none else some { inner with woken := inner.woken + 1 }

end Inner

/-- An `Arc` rebuilt from the raw pointer: a local, or one inside `ManuallyDrop`. -/
inductive Rebuilt where
  | owned
  | manual
  deriving DecidableEq

/-- The end of the scope, also when it is left by unwinding. -/
def Rebuilt.leave (inner : Inner) : Rebuilt → Option Inner
  | .owned => inner.release
  | .manual => some inner

/-- The clone is forgotten: it lives on in the new waker. -/
def wakerClone (inner : Inner) : Option Inner := do
  let arc := Rebuilt.manual
  let inner ← inner.clone
  arc.leave inner

def wakerDrop (inner : Inner) : Option Inner := Rebuilt.owned.leave inner

/-- Up to the call of the user's code, with what is to be left after it. -/
def wakerWake (inner : Inner) : Option (Rebuilt × Inner) := do
  let arc := Rebuilt.owned
  return (arc, ← inner.wake)

def wakerWakeByRef (inner : Inner) : Option (Rebuilt × Inner) := do
  let arc := Rebuilt.manual
  return (arc, ← inner.wake)

/-- A handle in the hands of the user; a borrowed waker holds on to the handle of an `Arc`. -/
inductive Handle where
  | arc
  | waker
  | borrowed (owner : Nat)
  | gone
  deriving DecidableEq

/-- A call of the user's `wake`, with the waker it was made through by reference. -/
inductive Frame where
  | running (rebuilt : Rebuilt) (waker : Option Nat)
  | ended
  deriving DecidableEq

structure State where
  inner : Inner
  handles : List Handle
  frames : List Frame

inductive Event where
  | cloneArc (h : Nat)
  | dropArc (h : Nat)
  | toWaker (h : Nat)
  | newBorrowed (h : Nat)
  | dropBorrowed (h : Nat)
  | clone (h : Nat)
  | wake (h : Nat)
  | wakeByRef (h : Nat)
  | drop (h : Nat)
  | finish (f : Nat) (panics : Bool)

namespace State

/-- Something still refers to the handle, so that it can be neither moved nor dropped. -/
def lent (s : State) (h : Nat) : Bool :=
  s.handles.any (fun k => k == .borrowed h) || s.frames.any fun f =>
    match f with
    | .running _ waker => waker == some h
    | .ended => false

def isArc (s : State) (h : Nat) : Bool := s.handles[h]? == some .arc
def isWaker (s : State) (h : Nat) : Bool := s.handles[h]? == some .waker

def isBorrowed (s : State) (h : Nat) : Bool :=
  match s.handles[h]? with
  | some (.borrowed _) => true
  | _ => false

def set (s : State) (inner : Inner) (h : Nat) (k : Handle) : State :=
  { s with inner, handles := s.handles.set h k }

def add (s : State) (inner : Inner) (k : Handle) : State :=
  { s with inner, handles := s.handles ++ [k] }

end State

/-- What ownership and borrowing allow. -/
def permitted (s : State) : Event → Bool
  | .cloneArc h | .newBorrowed h => s.isArc h
  | .dropArc h | .toWaker h => s.isArc h && !s.lent h
  | .dropBorrowed h => s.isBorrowed h && !s.lent h
  | .clone h | .wakeByRef h => s.isWaker h || s.isBorrowed h
  | .wake h | .drop h => s.isWaker h && !s.lent h
  | .finish f _ =>
    match s.frames[f]? with
    | some (.running _ _) => true
    | _ => false

/-- What the event does, where the memory it uses is there. -/
def act (s : State) : Event → Option State
  | .cloneArc _ => return s.add (← s.inner.clone) .arc
  | .dropArc h => return s.set (← s.inner.release) h .gone
  | .toWaker h => return s.set s.inner h .waker
  | .newBorrowed h => return s.add s.inner (.borrowed h)
  -- a `ManuallyDrop` has nothing to drop
  | .dropBorrowed h => return s.set s.inner h .gone
  | .clone _ => return s.add (← wakerClone s.inner) .waker
  | .wake h => do
    let (rebuilt, inner) ← wakerWake s.inner
    return { s.set inner h .gone with frames := s.frames ++ [.running rebuilt none] }
  | .wakeByRef h => do
    let (rebuilt, inner) ← wakerWakeByRef s.inner
    return { s with inner, frames := s.frames ++ [.running rebuilt (some h)] }
  | .drop h => return s.set (← wakerDrop s.inner) h .gone
  | .finish f _ =>
    match s.frames[f]? with
    | some (.running rebuilt _) =>
      return { s with inner := (← rebuilt.leave s.inner), frames := s.frames.set f .ended }
    | _ => none

def step (s : State) (e : Event) : Option State := if permitted s e then act s e else none

/-- `Arc::new` -/
def start : State := ⟨⟨1, 0, 0⟩, [.arc], []⟩

def Handle.isArc (k : Handle) : Bool := k == .arc
def Handle.isWaker (k : Handle) : Bool := k == .waker

def Frame.isArc : Frame → Bool
  | .running .owned _ => true
  | _ => false

/-- The living `Arc`s, those on the stack of a `wake` by value included. -/
def arcs (s : State) : Nat := s.handles.countP Handle.isArc + s.frames.countP Frame.isArc

def wakers (s : State) : Nat := s.handles.countP Handle.isWaker

def Event.wakes : Event → Bool
  | .wake _ | .wakeByRef _ => true
  | _ => false

/-- What is borrowed is there. -/
structure Borrows (s : State) : Prop where
  owner : ∀ b h : Nat, s.handles[b]? = some (.borrowed h) → s.isArc h = true
  waker : ∀ f h : Nat, s.frames[f]? = some (.running .manual (some h)) →
    s.isWaker h = true ∨ s.isBorrowed h = true
  named : ∀ f : Nat, s.frames[f]? ≠ some (.running .manual none)

structure Balanced (s : State) : Prop where
  strong : s.inner.strong = arcs s + wakers s
  dropped : s.inner.dropped = if s.inner.strong = 0 then 1 else 0

theorem start_borrows : Borrows start where
  owner b h found := by
    rcases b with _ | b <;> cases found
  waker f h found := by cases found
  named f found := by cases found

theorem start_balanced : Balanced start := ⟨rfl, rfl⟩

section Borrowing
variable {s t : State}

theorem isArc_iff {h : Nat} : s.isArc h = true ↔ s.handles[h]? = some .arc := beq_iff_eq

theorem isWaker_iff {h : Nat} : s.isWaker h = true ↔ s.handles[h]? = some .waker := beq_iff_eq

theorem isBorrowed_iff {h : Nat} :
    s.isBorrowed h = true ↔ ∃ a, s.handles[h]? = some (.borrowed a) := by
  unfold State.isBorrowed
  constructor
  · intro borrowed
    split at borrowed
    · exact ⟨_, ‹_›⟩
    · cases borrowed
  · rintro ⟨a, found⟩
    rw [found]

theorem not_lent {h : Nat} (free : s.lent h = false) :
    (∀ b : Nat, s.handles[b]? ≠ some (.borrowed h)) ∧
      ∀ (f : Nat) (rebuilt : Rebuilt), s.frames[f]? ≠ some (.running rebuilt (some h)) := by
  simp only [State.lent, Bool.or_eq_false_iff, List.any_eq_false, beq_iff_eq] at free
  refine ⟨fun b found => free.1 _ (List.mem_of_getElem? found) rfl, fun f rebuilt found => ?_⟩
  exact free.2 _ (List.mem_of_getElem? found) (by simp)

/-- A handle that nothing refers to becomes one that refers to nothing. -/
theorem set_borrows (inv : Borrows s) {h : Nat} (free : s.lent h = false) {k : Handle}
    (plain : ∀ a, k ≠ .borrowed a) (handles : t.handles = s.handles.set h k)
    (frames : t.frames = s.frames) : Borrows t := by
  obtain ⟨noBorrow, noFrame⟩ := not_lent free
  have other : ∀ j, j ≠ h → t.handles[j]? = s.handles[j]? := by
    intro j apart
    rw [handles, List.getElem?_set_ne (Ne.symm apart)]
  constructor
  · intro b a found
    have apart : b ≠ h := by
      rintro rfl
      rw [handles, List.getElem?_set] at found
      simp only [if_true] at found
      split at found
      · exact plain a (Option.some.inj found)
      · cases found
    rw [other b apart] at found
    have owned : a ≠ h := by
      rintro rfl
      exact noBorrow b found
    rw [isArc_iff, other a owned]
    exact isArc_iff.mp (inv.owner b a found)
  · intro f a found
    rw [frames] at found
    have apart : a ≠ h := by
      rintro rfl
      exact noFrame f _ found
    rw [isWaker_iff, isBorrowed_iff, other a apart, ← isWaker_iff, ← isBorrowed_iff]
    exact inv.waker f a found
  · intro f
    rw [frames]
    exact inv.named f

/-- A handle is added; one that borrows refers to an `Arc`. -/
theorem add_borrows (inv : Borrows s) {k : Handle} (owner : ∀ a, k = .borrowed a → s.isArc a = true)
    (handles : t.handles = s.handles ++ [k]) (frames : t.frames = s.frames) : Borrows t := by
  have old : ∀ {j : Nat} {x : Handle}, s.handles[j]? = some x → t.handles[j]? = some x := by
    intro j x found
    rw [handles, List.getElem?_append_left (List.getElem?_eq_some_iff.mp found).1]
    exact found
  constructor
  · intro b a found
    rw [handles] at found
    rw [isArc_iff]
    rcases Nat.lt_or_ge b s.handles.length with inside | past
    · rw [List.getElem?_append_left inside] at found
      exact old (isArc_iff.mp (inv.owner b a found))
    · rw [List.getElem?_append_right past] at found
      have here := List.mem_singleton.mp (List.mem_of_getElem? found)
      exact old (isArc_iff.mp (owner a here.symm))
  · intro f a found
    rw [frames] at found
    rw [isWaker_iff, isBorrowed_iff]
    rcases inv.waker f a found with waker | borrowed
    · exact .inl (old (isWaker_iff.mp waker))
    · obtain ⟨c, here⟩ := isBorrowed_iff.mp borrowed
      exact .inr ⟨c, old here⟩
  · intro f
    rw [frames]
    exact inv.named f

/-- The frames change, and those made through a waker have one. -/
theorem frames_borrows (inv : Borrows s) (handles : t.handles = s.handles)
    (waker : ∀ f h : Nat, t.frames[f]? = some (.running .manual (some h)) →
      s.isWaker h = true ∨ s.isBorrowed h = true)
    (named : ∀ f : Nat, t.frames[f]? ≠ some (.running .manual none)) : Borrows t := by
  constructor
  · intro b a found
    rw [isArc_iff, handles]
    exact isArc_iff.mp (inv.owner b a (handles ▸ found))
  · intro f h found
    rw [isWaker_iff, isBorrowed_iff, handles, ← isWaker_iff, ← isBorrowed_iff]
    exact waker f h found
  · exact named

end Borrowing

section Moves
variable {s t : State}

/-- The kinds of events, by what they do to the count and to the handles. The flag tells
whether the user's `wake` is called. -/
inductive Move (s : State) : Bool → State → Prop
  | grow {k : Handle} (counts : k = .arc ∨ k = .waker) (alive : s.inner.strong ≠ 0) :
      Move s false (s.add { s.inner with strong := s.inner.strong + 1 } k)
  | shrink {h : Nat} {k : Handle} {inner : Inner} (counts : k = .arc ∨ k = .waker)
      (found : s.handles[h]? = some k) (free : s.lent h = false)
      (released : s.inner.release = some inner) : Move s false (s.set inner h .gone)
  | convert {h : Nat} (found : s.handles[h]? = some .arc) (free : s.lent h = false) :
      Move s false (s.set s.inner h .waker)
  | borrow {h : Nat} (owner : s.isArc h = true) : Move s false (s.add s.inner (.borrowed h))
  | giveBack {h a : Nat} (found : s.handles[h]? = some (.borrowed a)) (free : s.lent h = false) :
      Move s false (s.set s.inner h .gone)
  | wake {h : Nat} (found : s.handles[h]? = some .waker) (free : s.lent h = false)
      (alive : s.inner.strong ≠ 0) :
      Move s true { s.set { s.inner with woken := s.inner.woken + 1 } h .gone with
        frames := s.frames ++ [.running .owned none] }
  | wakeByRef {h : Nat} (waker : s.isWaker h = true ∨ s.isBorrowed h = true)
      (alive : s.inner.strong ≠ 0) :
      Move s true { s with
        inner := { s.inner with woken := s.inner.woken + 1 }
        frames := s.frames ++ [.running .manual (some h)] }
  | leave {f : Nat} {waker : Option Nat} {inner : Inner}
      (found : s.frames[f]? = some (.running .owned waker))
      (released : s.inner.release = some inner) :
      Move s false { s with inner, frames := s.frames.set f .ended }
  | keep {f : Nat} {waker : Option Nat} (found : s.frames[f]? = some (.running .manual waker)) :
      Move s false { s with frames := s.frames.set f .ended }

theorem clone_some {inner after : Inner} (cloned : inner.clone = some after) :
    inner.strong ≠ 0 ∧ after = { inner with strong := inner.strong + 1 } := by
  unfold Inner.clone at cloned
  split at cloned
  · cases cloned
  · rename_i alive
    exact ⟨alive, (Option.some.inj cloned).symm⟩

theorem wake_some {inner after : Inner} (called : inner.wake = some after) :
    inner.strong ≠ 0 ∧ after = { inner with woken := inner.woken + 1 } := by
  unfold Inner.wake at called
  split at called
  · cases called
  · rename_i alive
    exact ⟨alive, (Option.some.inj called).symm⟩

theorem step_move {e : Event} (taken : step s e = some t) : Move s e.wakes t := by
  unfold step at taken
  split at taken
  case isFalse => cases taken
  case isTrue allowed =>
    cases e with
    | cloneArc h =>
      simp only [act, Option.bind_eq_bind, Option.bind_eq_some_iff, Option.pure_def,
        Option.some.injEq] at taken
      obtain ⟨inner, cloned, rfl⟩ := taken
      obtain ⟨alive, rfl⟩ := clone_some cloned
      exact .grow (.inl rfl) alive
    | dropArc h =>
      simp only [act, Option.bind_eq_bind, Option.bind_eq_some_iff, Option.pure_def,
        Option.some.injEq] at taken
      obtain ⟨inner, released, rfl⟩ := taken
      simp only [permitted, Bool.and_eq_true, Bool.not_eq_true'] at allowed
      exact .shrink (.inl rfl) (isArc_iff.mp allowed.1) allowed.2 released
    | toWaker h =>
      cases Option.some.inj taken
      simp only [permitted, Bool.and_eq_true, Bool.not_eq_true'] at allowed
      exact .convert (isArc_iff.mp allowed.1) allowed.2
    | newBorrowed h =>
      cases Option.some.inj taken
      exact .borrow allowed
    | dropBorrowed h =>
      cases Option.some.inj taken
      simp only [permitted, Bool.and_eq_true, Bool.not_eq_true'] at allowed
      obtain ⟨a, found⟩ := isBorrowed_iff.mp allowed.1
      exact .giveBack found allowed.2
    | clone h =>
      simp only [act, wakerClone, Rebuilt.leave, Option.bind_eq_bind, Option.bind_eq_some_iff,
        Option.pure_def, Option.some.injEq] at taken
      obtain ⟨inner, ⟨inner', cloned, rfl⟩, rfl⟩ := taken
      obtain ⟨alive, rfl⟩ := clone_some cloned
      exact .grow (.inr rfl) alive
    | wake h =>
      simp only [act, wakerWake, Option.bind_eq_bind, Option.bind_eq_some_iff,
        Option.pure_def, Option.some.injEq] at taken
      obtain ⟨_, ⟨inner, called, rfl⟩, rfl⟩ := taken
      obtain ⟨alive, rfl⟩ := wake_some called
      simp only [permitted, Bool.and_eq_true, Bool.not_eq_true'] at allowed
      exact .wake (isWaker_iff.mp allowed.1) allowed.2 alive
    | wakeByRef h =>
      simp only [act, wakerWakeByRef, Option.bind_eq_bind, Option.bind_eq_some_iff,
        Option.pure_def, Option.some.injEq] at taken
      obtain ⟨_, ⟨inner, called, rfl⟩, rfl⟩ := taken
      obtain ⟨alive, rfl⟩ := wake_some called
      exact .wakeByRef (Bool.or_eq_true_iff.mp allowed) alive
    | drop h =>
      simp only [act, wakerDrop, Rebuilt.leave, Option.bind_eq_bind, Option.bind_eq_some_iff,
        Option.pure_def, Option.some.injEq] at taken
      obtain ⟨inner, released, rfl⟩ := taken
      simp only [permitted, Bool.and_eq_true, Bool.not_eq_true'] at allowed
      exact .shrink (.inr rfl) (isWaker_iff.mp allowed.1) allowed.2 released
    | finish f panics =>
      simp only [act] at taken
      cases found : s.frames[f]? with
      | none => simp only [found, reduceCtorEq] at taken
      | some frame =>
        cases frame with
        | ended => simp only [found, reduceCtorEq] at taken
        | running rebuilt waker =>
          simp only [found, Option.bind_eq_bind, Option.bind_eq_some_iff, Option.pure_def,
            Option.some.injEq] at taken
          obtain ⟨inner, left, rfl⟩ := taken
          cases rebuilt with
          | owned => exact .leave found left
          | manual =>
            cases Option.some.inj left
            exact .keep found

theorem append_frame {frame : Frame} {f : Nat} {x : Frame}
    (found : (s.frames ++ [frame])[f]? = some x) : s.frames[f]? = some x ∨ x = frame := by
  rcases Nat.lt_or_ge f s.frames.length with inside | past
  · exact .inl (by rwa [List.getElem?_append_left inside] at found)
  · rw [List.getElem?_append_right past] at found
    exact .inr (List.mem_singleton.mp (List.mem_of_getElem? found))

theorem set_ended {f g : Nat} {x : Frame} (found : (s.frames.set f .ended)[g]? = some x)
    (running : x ≠ .ended) : s.frames[g]? = some x := by
  rw [List.getElem?_set] at found
  split at found
  · split at found
    · exact absurd (Option.some.inj found).symm running
    · cases found
  · exact found

theorem move_borrows {wakes : Bool} (inv : Borrows s) (move : Move s wakes t) : Borrows t := by
  cases move with
  | grow counts alive =>
    refine add_borrows inv (fun a same => ?_) rfl rfl
    rcases counts with rfl | rfl <;> cases same
  | shrink counts found free released => exact set_borrows (k := .gone) inv free nofun rfl rfl
  | convert found free => exact set_borrows (k := .waker) inv free nofun rfl rfl
  | borrow owner =>
    refine add_borrows inv (fun a same => ?_) rfl rfl
    cases same
    exact owner
  | giveBack found free => exact set_borrows (k := .gone) inv free nofun rfl rfl
  | @wake h found free alive =>
    have moved : Borrows (s.set { s.inner with woken := s.inner.woken + 1 } h .gone) :=
      set_borrows (k := .gone) inv free nofun rfl rfl
    refine frames_borrows moved rfl (fun f a here => ?_) (fun f here => ?_)
    · rcases append_frame here with old | new
      · exact moved.waker f a old
      · cases new
    · rcases append_frame here with old | new
      · exact moved.named f old
      · cases new
  | wakeByRef waker alive =>
    refine frames_borrows inv rfl (fun f a here => ?_) (fun f here => ?_)
    · rcases append_frame here with old | new
      · exact inv.waker f a old
      · cases new
        exact waker
    · rcases append_frame here with old | new
      · exact inv.named f old
      · cases new
  | leave found | keep found =>
    exact frames_borrows inv rfl (fun f a here => inv.waker f a (set_ended here nofun))
      (fun f here => inv.named f (set_ended here nofun))

end Moves

section Balance
variable {s t : State}

/-- What a handle or a frame contributes to the strong count. -/
def Handle.share (k : Handle) : Nat := weight k.isArc + weight k.isWaker

def Frame.share (f : Frame) : Nat := weight f.isArc

theorem living_set {h : Nat} {old k : Handle} (found : s.handles[h]? = some old) (inner : Inner) :
    arcs (s.set inner h k) + wakers (s.set inner h k) + old.share = arcs s + wakers s + k.share := by
  have first := countP_set_weight Handle.isArc k found
  have second := countP_set_weight Handle.isWaker k found
  simp only [arcs, wakers, State.set, Handle.share]
  omega

theorem living_add (inner : Inner) (k : Handle) :
    arcs (s.add inner k) + wakers (s.add inner k) = arcs s + wakers s + k.share := by
  simp only [arcs, wakers, State.add, Handle.share, List.countP_append, List.countP_singleton, weight]
  omega

theorem frames_set {f : Nat} {old : Frame} (found : s.frames[f]? = some old) :
    (s.frames.set f .ended).countP Frame.isArc + old.share = s.frames.countP Frame.isArc :=
  countP_set_weight Frame.isArc .ended found

theorem frames_add (frame : Frame) :
    (s.frames ++ [frame]).countP Frame.isArc = s.frames.countP Frame.isArc + frame.share := by
  rw [List.countP_append, List.countP_singleton]
  rfl

theorem release_some {inner after : Inner} (released : inner.release = some after) :
    after.strong + 1 = inner.strong ∧ after.woken = inner.woken ∧
      after.dropped = inner.dropped + if after.strong = 0 then 1 else 0 := by
  unfold Inner.release at released
  split at released
  · cases released
  · rename_i one
    cases Option.some.inj released
    exact ⟨one.symm, rfl, rfl⟩
  · rename_i n more
    cases Option.some.inj released
    exact ⟨more.symm, rfl, rfl⟩

theorem move_balanced {wakes : Bool} (inv : Balanced s) (move : Move s wakes t) : Balanced t := by
  have strong := inv.strong
  have dropped := inv.dropped
  cases move with
  | @grow k counts alive =>
    have living := living_add (s := s) { s.inner with strong := s.inner.strong + 1 } k
    have one : k.share = 1 := by rcases counts with rfl | rfl <;> rfl
    rw [if_neg alive] at dropped
    refine ⟨?_, ?_⟩
    · change s.inner.strong + 1 = _
      omega
    · exact dropped.trans (if_neg (Nat.succ_ne_zero _)).symm
  | @shrink h k inner counts found free released =>
    obtain ⟨fewer, -, last⟩ := release_some released
    have living := living_set (k := .gone) found inner
    have one : k.share = 1 := by rcases counts with rfl | rfl <;> rfl
    have none : Handle.gone.share = 0 := rfl
    rw [if_neg (by omega)] at dropped
    refine ⟨?_, ?_⟩
    · change inner.strong = _
      omega
    · change inner.dropped = _
      rw [last, dropped, Nat.zero_add]
      rfl
  | @convert h found free =>
    have living := living_set (k := .waker) found s.inner
    have same : Handle.arc.share = Handle.waker.share := rfl
    exact ⟨by change s.inner.strong = _; omega, dropped⟩
  | @borrow h owner =>
    have living := living_add (s := s) s.inner (.borrowed h)
    have none : (Handle.borrowed h).share = 0 := rfl
    exact ⟨by change s.inner.strong = _; omega, dropped⟩
  | @giveBack h a found free =>
    have living := living_set (k := .gone) found s.inner
    have same : (Handle.borrowed a).share = Handle.gone.share := rfl
    exact ⟨by change s.inner.strong = _; omega, dropped⟩
  | @wake h found free alive =>
    have living := living_set (k := .gone) found { s.inner with woken := s.inner.woken + 1 }
    have frames := frames_add (s := s) (.running .owned none)
    have same : Handle.waker.share = Handle.gone.share + (Frame.running .owned none).share := rfl
    refine ⟨?_, dropped⟩
    simp only [arcs, wakers, State.set] at living strong ⊢
    omega
  | @wakeByRef h waker alive =>
    have frames := frames_add (s := s) (.running .manual (some h))
    have none : (Frame.running .manual (some h)).share = 0 := rfl
    refine ⟨?_, dropped⟩
    simp only [arcs, wakers] at strong ⊢
    omega
  | @leave f waker inner found released =>
    obtain ⟨fewer, -, last⟩ := release_some released
    have frames := frames_set found
    have one : (Frame.running .owned waker).share = 1 := rfl
    rw [if_neg (by omega)] at dropped
    refine ⟨?_, ?_⟩
    · simp only [arcs, wakers] at strong ⊢
      omega
    · change inner.dropped = _
      rw [last, dropped, Nat.zero_add]
  | @keep f waker found =>
    have frames := frames_set found
    have none : (Frame.running .manual waker).share = 0 := rfl
    refine ⟨?_, dropped⟩
    simp only [arcs, wakers] at strong ⊢
    omega

/-- Whatever is there keeps the value alive. -/
theorem alive_of_handle (inv : Balanced s) {h : Nat} {k : Handle} (found : s.handles[h]? = some k)
    (counts : k.share = 1) : s.inner.strong ≠ 0 := by
  have living := living_set (k := .gone) found s.inner
  have none : Handle.gone.share = 0 := rfl
  have strong := inv.strong
  omega

theorem alive_of_borrowed (inv : Balanced s) (borrows : Borrows s) {b h : Nat}
    (found : s.handles[b]? = some (.borrowed h)) : s.inner.strong ≠ 0 :=
  alive_of_handle inv (isArc_iff.mp (borrows.owner b h found)) rfl

theorem alive_of_waker (inv : Balanced s) (borrows : Borrows s) {h : Nat}
    (waker : s.isWaker h = true ∨ s.isBorrowed h = true) : s.inner.strong ≠ 0 := by
  rcases waker with owned | borrowed
  · exact alive_of_handle inv (isWaker_iff.mp owned) rfl
  · obtain ⟨a, found⟩ := isBorrowed_iff.mp borrowed
    exact alive_of_borrowed inv borrows found

theorem alive_of_frame (inv : Balanced s) (borrows : Borrows s) {f : Nat} {rebuilt : Rebuilt}
    {waker : Option Nat} (found : s.frames[f]? = some (.running rebuilt waker)) :
    s.inner.strong ≠ 0 := by
  cases rebuilt with
  | owned =>
    have strong := inv.strong
    have frames := frames_set found
    have one : (Frame.running .owned waker).share = 1 := rfl
    simp only [arcs] at strong
    omega
  | manual =>
    cases waker with
    | none => exact absurd found (borrows.named f)
    | some h => exact alive_of_waker inv borrows (borrows.waker f h found)

theorem clone_alive {inner : Inner} (alive : inner.strong ≠ 0) : ∃ after, inner.clone = some after :=
  ⟨_, if_neg alive⟩

theorem wake_alive {inner : Inner} (alive : inner.strong ≠ 0) : ∃ after, inner.wake = some after :=
  ⟨_, if_neg alive⟩

theorem release_alive {inner : Inner} (alive : inner.strong ≠ 0) :
    ∃ after, inner.release = some after := by
  unfold Inner.release
  split
  · exact absurd ‹_› alive
  · exact ⟨_, rfl⟩
  · exact ⟨_, rfl⟩

/-- Nothing that the language allows uses memory that was freed. -/
theorem step_defined (inv : Balanced s) (borrows : Borrows s) {e : Event}
    (allowed : permitted s e = true) : ∃ t, step s e = some t := by
  rw [step, if_pos allowed]
  cases e with
  | cloneArc h =>
    obtain ⟨after, cloned⟩ := clone_alive (alive_of_handle inv (isArc_iff.mp allowed) rfl)
    exact ⟨_, by simp only [act, cloned]; rfl⟩
  | dropArc h =>
    have owned := isArc_iff.mp (Bool.and_eq_true_iff.mp allowed).1
    obtain ⟨after, released⟩ := release_alive (alive_of_handle inv owned rfl)
    exact ⟨_, by simp only [act, released]; rfl⟩
  | toWaker h | newBorrowed h | dropBorrowed h => exact ⟨_, rfl⟩
  | clone h =>
    obtain ⟨after, cloned⟩ := clone_alive (alive_of_waker inv borrows (Bool.or_eq_true_iff.mp allowed))
    exact ⟨_, by simp only [act, wakerClone, cloned]; rfl⟩
  | wake h =>
    have owned := isWaker_iff.mp (Bool.and_eq_true_iff.mp allowed).1
    obtain ⟨after, called⟩ := wake_alive (alive_of_handle inv owned rfl)
    exact ⟨_, by simp only [act, wakerWake, called]; rfl⟩
  | wakeByRef h =>
    obtain ⟨after, called⟩ := wake_alive (alive_of_waker inv borrows (Bool.or_eq_true_iff.mp allowed))
    exact ⟨_, by simp only [act, wakerWakeByRef, called]; rfl⟩
  | drop h =>
    have owned := isWaker_iff.mp (Bool.and_eq_true_iff.mp allowed).1
    obtain ⟨after, released⟩ := release_alive (alive_of_handle inv owned rfl)
    exact ⟨_, by simp only [act, wakerDrop, Rebuilt.leave, released]; rfl⟩
  | finish f panics =>
    simp only [permitted] at allowed
    cases found : s.frames[f]? with
    | none => simp only [found, Bool.false_eq_true] at allowed
    | some frame =>
      cases frame with
      | ended => simp only [found, Bool.false_eq_true] at allowed
      | running rebuilt waker =>
        have alive := alive_of_frame inv borrows found
        cases rebuilt with
        | owned =>
          obtain ⟨after, released⟩ := release_alive alive
          exact ⟨_, by simp only [act, found, Rebuilt.leave, released]; rfl⟩
        | manual => exact ⟨_, by simp only [act, found, Rebuilt.leave]; rfl⟩

theorem move_woken {wakes : Bool} (move : Move s wakes t) :
    t.inner.woken = s.inner.woken + if wakes then 1 else 0 := by
  cases move with
  | grow | convert | borrow | giveBack | wake | wakeByRef | keep => rfl
  | shrink counts found free released => exact (release_some released).2.1
  | leave found released => exact (release_some released).2.1

theorem step_woken (n : Nat) (s : State) (e : Event) (t : State) (woken : s.inner.woken = n)
    (taken : step s e = some t) : t.inner.woken = n + if e.wakes then 1 else 0 :=
  woken ▸ move_woken (step_move taken)

theorem run_balanced {es : List Event} (run : exec step start es = some s) :
    Balanced s ∧ Borrows s :=
  invariant_run (I := fun s => Balanced s ∧ Borrows s)
    (fun _ _ _ inv taken =>
      ⟨move_balanced inv.1 (step_move taken), move_borrows inv.2 (step_move taken)⟩)
    ⟨start_balanced, start_borrows⟩ run

/-- In every run of calls the strong count is the number of living `Arc`s and owned wakers.
The value is dropped when that is zero, and once; it lives while a borrowed waker or a call
of its `wake` does. Every wake calls it once, and nothing that is allowed misses it. -/
theorem waker_balance (es : List Event) (s : State) (run : exec step start es = some s) :
    s.inner.strong = arcs s + wakers s ∧
    s.inner.dropped = (if arcs s + wakers s = 0 then 1 else 0) ∧
    (∀ b h : Nat, s.handles[b]? = some (.borrowed h) → s.inner.dropped = 0) ∧
    (∀ (f : Nat) (rebuilt : Rebuilt) (waker : Option Nat),
      s.frames[f]? = some (.running rebuilt waker) → s.inner.dropped = 0) ∧
    s.inner.woken = tally step (fun _ e => e.wakes) start es ∧
    ∀ e, permitted s e = true → ∃ t, step s e = some t := by
  obtain ⟨inv, borrows⟩ := run_balanced run
  have living : s.inner.strong ≠ 0 → s.inner.dropped = 0 :=
    fun alive => inv.dropped.trans (if_neg alive)
  refine ⟨inv.strong, inv.strong ▸ inv.dropped, fun b h found => ?_, fun f rebuilt waker found => ?_,
    ?_, fun e allowed => step_defined inv borrows allowed⟩
  · exact living (alive_of_borrowed inv borrows found)
  · exact living (alive_of_frame inv borrows found)
  · have counted := tally_invariant (I := fun n s => s.inner.woken = n) step_woken (n := 0) rfl run
    exact counted.trans (Nat.zero_add _)

/-- A borrowed waker is cloned, the clone woken by value, and the `Arc` dropped while the
wake goes on; the wake panics. -/
def panickingWake : List Event :=
  [.newBorrowed 0, .clone 1, .dropBorrowed 1, .wake 2, .dropArc 0, .finish 0 true]

theorem waker_balance_panicking :
    let s := last step start panickingWake;
    s.inner.woken = 1 ∧ s.inner.dropped = (if arcs s + wakers s = 0 then 1 else 0) ∧
      arcs s + wakers s = 0 := by
  have run : exec step start panickingWake = some _ := exec_last rfl
  exact ⟨rfl, (waker_balance panickingWake _ run).2.1, rfl⟩

end Balance

end Juggle.Utils.Wakers
