import Juggle.St.Sessions
import Juggle.St.Requests
import Juggle.Lib.Trace
import Mathlib.Logic.Function.Basic

/-! A `StaticWheelDef` shared by threads: the lock of `st/wheel.rs` and the check of
`st/handle.rs`. The wheel object and the handles stay on the thread that obtained them,
while `try_lock` may be called from anywhere. -/
namespace Juggle.St
open Juggle.Utils Juggle.Runs Juggle.Traces

/-- A `StaticHandle`, with the session in which it was obtained. -/
structure StaticHandle where
  generationId : Nat
  session : Nat
  deriving DecidableEq

/-- How far a thread has come with the wheel: the exchange of `try_lock` has succeeded, or
`init` has begun and the lock guard of the drop has not run yet. -/
inductive Hold where
  | none
  | entering
  | wheel
  deriving DecidableEq

/-- `pending` is a call whose `is_valid` has returned true. -/
structure Party where
  hold : Hold
  handles : List StaticHandle
  pending : Option (StaticHandle × Call)
  deriving DecidableEq

structure StaticWheelDef where
  lock : Bool
  wheel : Wheel
  parties : Nat → Party

/-- What the code under the lock does, and its user code, apart from handle calls. -/
def Event.owned : Event → Bool
  | .wake _ => true
  | .poll _ => true
  | .run => true
  | .dropped => true
  | .created => true
  | .done _ => true
  | .panic => true
  | .drop => true
  | _ => false

/-- What wakers do on any thread. -/
def Event.wakes : Event → Bool
  | .wakeBegin _ => true
  | .wakeStep _ => true
  | _ => false

namespace StaticWheelDef

inductive Event where
  /-- the exchange of `try_lock` -/
  | tryLock (i : Nat)
  /-- `init` begins -/
  | init (i : Nat)
  | own (i : Nat) (e : St.Event)
  | waker (e : St.Event)
  /-- `StaticWheel::handle`, or the handle that a task is given -/
  | handle (i : Nat)
  /-- the check at the head of a call through a handle -/
  | isValid (i : Nat) (n : Nat) (c : Call)
  /-- the rest of the call, if the check has returned true -/
  | perform (i : Nat)
  /-- the lock guard at the end of the drop -/
  | unlock (i : Nat)

def fromRawConfig (config : List StaticParams) : StaticWheelDef where
  lock := false
  wheel := Wheel.new config
  parties _ := ⟨.none, [], none⟩

def put (s : StaticWheelDef) (i : Nat) (p : Party) : StaticWheelDef :=
  { s with parties := Function.update s.parties i p }

/-- User code runs on the thread. -/
def runsUser (s : StaticWheelDef) (i : Nat) : Bool :=
  (s.parties i).pending.isNone &&
    match (s.parties i).hold with
    | .none => true
    | .entering => false
    | .wheel => s.wheel.userCode && decide (s.wheel.pc ≠ .unlocked)

def tryLock (s : StaticWheelDef) (i : Nat) : Option StaticWheelDef :=
  if s.runsUser i then
    if s.lock then some s
    else some ({ s with lock := true }.put i { s.parties i with hold := .entering })
  else none

def init (s : StaticWheelDef) (i : Nat) : Option StaticWheelDef :=
  if (s.parties i).hold = .entering then
    (s.wheel.step .lock).map fun w =>
      { s with wheel := w }.put i { s.parties i with hold := .wheel }
  else none

def own (s : StaticWheelDef) (i : Nat) (e : St.Event) : Option StaticWheelDef :=
  if (s.parties i).hold = .wheel ∧ (s.parties i).pending.isNone = true ∧ e.owned = true ∧
      s.wheel.pc ≠ .unlocked then
    (s.wheel.step e).map fun w => { s with wheel := w }
  else none

def waker (s : StaticWheelDef) (e : St.Event) : Option StaticWheelDef :=
  if e.wakes then (s.wheel.step e).map fun w => { s with wheel := w } else none

def handle (s : StaticWheelDef) (i : Nat) : Option StaticWheelDef :=
  if (s.parties i).hold = .wheel ∧ s.runsUser i = true ∧ s.wheel.live = true then
    let h := ⟨s.wheel.alg.currentGeneration, s.wheel.session⟩
    some (s.put i { s.parties i with handles := h :: (s.parties i).handles })
  else none

def isValid (s : StaticWheelDef) (i n : Nat) (c : Call) : Option StaticWheelDef :=
  if s.runsUser i then
    match (s.parties i).handles[n]? with
    | some h =>
      if h.generationId = s.wheel.alg.currentGeneration then
        some (s.put i { s.parties i with pending := some (h, c) })
      else some s
    | none => none
  else none

/-- Nothing but the check keeps a thread without the wheel from changing it at any time. -/
def perform (s : StaticWheelDef) (i : Nat) : Option StaticWheelDef :=
  match (s.parties i).pending with
  | some (_, c) =>
    let w := s.wheel.perform c
    let w := if (s.parties i).hold = .wheel then w.settle else w
    some ({ s with wheel := w }.put i { s.parties i with pending := none })
  | none => none

def unlock (s : StaticWheelDef) (i : Nat) : Option StaticWheelDef :=
  if (s.parties i).hold = .wheel ∧ (s.parties i).pending.isNone = true ∧ s.wheel.pc = .unlocked then
    some ({ s with lock := false }.put i { s.parties i with hold := .none })
  else none

def step (s : StaticWheelDef) : Event → Option StaticWheelDef
  | .tryLock i => s.tryLock i
  | .init i => s.init i
  | .own i e => s.own i e
  | .waker e => s.waker e
  | .handle i => s.handle i
  | .isValid i n c => s.isValid i n c
  | .perform i => s.perform i
  | .unlock i => s.unlock i

/-- What the step is for a wheel that belongs to one thread. -/
def shows (s : StaticWheelDef) : Event → List St.Event
  | .init _ => [.lock]
  | .own _ e => [e]
  | .waker e => [e]
  | .perform i =>
    match (s.parties i).pending with
    | some (h, c) => [.call h.session c]
    | none => []
  | _ => []

/-- The lock is held by one thread at most, and a handle of the current session belongs to
the thread that holds it. -/
structure Governed (s : StaticWheelDef) : Prop where
  aligned : s.wheel.Aligned
  locked : ∀ i, (s.parties i).hold ≠ .none → s.lock = true
  alone : ∀ i j, (s.parties i).hold ≠ .none → (s.parties j).hold ≠ .none → i = j
  free : (∀ i, (s.parties i).hold ≠ .wheel) → s.wheel.pc = .unlocked
  handles : ∀ i h, h ∈ (s.parties i).handles → h.generationId = h.session % (usizeMax + 1) ∧
    h.session ≤ s.wheel.session ∧
    (h.session = s.wheel.session → (s.parties i).hold = .wheel ∧ s.wheel.live = true)
  pending : ∀ i h c, (s.parties i).pending = some (h, c) → (s.parties i).hold = .wheel ∧
    s.wheel.userCode = true ∧ s.wheel.live = true ∧ h.session = s.wheel.session

end StaticWheelDef

namespace Wheel

/-! A session that has handed out handles goes on until its generation ends. -/

/-- The session goes on, or it has ended. -/
def Outlives (s s' : Wheel) : Prop := s'.live = true ∨ s'.session = s.session + 1

theorem live_inTask {c : Caller} {key : TaskKey} {stage : Stage} {s : Wheel}
    (pc : s.pc = .inTask c key stage) (live : s.live = true) : ∀ n, c ≠ .init n := by
  rintro n rfl
  simp [Wheel.live, pc] at live

theorem live_back {c : Caller} {key : TaskKey} {isReady : Bool} {s : Wheel}
    (pc : s.pc = .back c key isReady) (live : s.live = true) : ∀ n, c ≠ .init n := by
  rintro n rfl
  simp [Wheel.live, pc] at live

theorem atStage_live (s : Wheel) {c : Caller} (key : TaskKey) (stage : Stage)
    (session : ∀ n, c ≠ .init n) : (s.atStage c key stage).live = true := by
  cases c with
  | init n => exact absurd rfl (session n)
  | _ => cases stage <;> rfl

theorem pollProtected_live (s : Wheel) {c : Caller} (key : TaskKey) (session : ∀ n, c ≠ .init n) :
    (s.pollProtected c key).live = true := by
  unfold pollProtected
  split
  · rfl
  · split
    · rfl
    · exact atStage_live _ key _ session

theorem dispose_outlives (s : Wheel) (unwinding : Bool) : Outlives s (s.dispose unwinding) := by
  unfold dispose
  split
  · exact .inr rfl
  · exact .inl rfl

theorem run_outlives {s s' : Wheel} (live : s.live = true) (h : s.run = some s') : Outlives s s' := by
  unfold run at h
  split at h
  · cases h
    exact .inl rfl
  · rename_i b key pc
    split at h
    · rename_i task found
      cases h
      refine .inl ?_
      unfold visit
      split
      · split <;> rfl
      · exact pollProtected_live _ key (by simp)
      · exact pollProtected_live _ key (by simp)
      · exact pollProtected_live _ key (by simp)
      · rfl
      · rfl
    · cases h
      refine .inl ?_
      unfold endBeat
      split
      · rfl
      · rfl
      · rfl
      · dsimp only
        split <;> rfl
  · split at h
    · cases h
      split <;> exact .inl rfl
    · cases h
  · cases h
    exact .inl (pollProtected_live _ _ (by simp))
  · rename_i c key isReady pc
    cases h
    cases c with
    | init n => exact absurd rfl (live_back pc live n)
    | pollLocal b restart => cases isReady <;> exact .inl rfl
    | _ => exact .inl rfl
  · cases h
    exact .inl rfl
  · cases h
    exact .inl rfl
  · rename_i unwinding key pc
    cases h
    split
    · exact .inl (pollProtected_live _ key (by simp))
    · exact .inr rfl
  · rename_i pc
    simp [Wheel.live, pc] at live
  · cases h

theorem Aside.live {s s' : Wheel} (aside : Aside s s') : s'.live = s.live := by
  rcases aside.pc' with pc | ⟨v, before, pc⟩
  · simp only [Wheel.live, pc]
  · simp only [Wheel.live, pc, before]

theorem Aside.userCode {s s' : Wheel} (aside : Aside s s') : s'.userCode = s.userCode := by
  rcases aside.pc' with pc | ⟨v, before, pc⟩
  · simp only [Wheel.userCode, pc]
  · simp only [Wheel.userCode, pc, before]

theorem panic_outlives {s s' : Wheel} (live : s.live = true) (h : s.panic = some s') :
    Outlives s s' := by
  unfold panic at h
  split at h
  · rename_i c key stage pc
    split at h
    · cases c with
      | init n => exact absurd rfl (live_inTask pc live n)
      | cleanup unwinding =>
        cases unwinding
        · cases h
          exact .inl rfl
        · cases h
      | _ =>
        cases h
        exact .inl rfl
    · cases h
  · cases h

theorem step_outlives {s s' : Wheel} {e : Event} (live : s.live = true) (h : s.step e = some s') :
    Outlives s s' := by
  cases e with
  | poll w =>
    simp only [step, poll] at h
    split at h <;> cases h <;> exact .inl rfl
  | run => exact run_outlives live h
  | dropped =>
    simp only [step, dropped] at h
    split at h
    · rename_i pc
      cases h
      exact .inl (atStage_live _ _ _ (live_inTask pc live))
    · rename_i c key v pc
      cases h
      exact .inl (atStage_live s key (.leave true) (live_inTask pc live))
    · cases h
  | created =>
    simp only [step, created] at h
    split at h
    · rename_i pc
      cases h
      exact .inl (atStage_live _ _ _ (live_inTask pc live))
    · cases h
  | done isReady =>
    simp only [step, done] at h
    split at h
    · rename_i pc
      cases h
      exact .inl (atStage_live _ _ _ (live_inTask pc live))
    · cases h
  | panic => exact panic_outlives live h
  | lock =>
    simp only [step, lock] at h
    split at h
    · rename_i pc
      simp [Wheel.live, pc] at live
    · cases h
  | drop =>
    simp only [step, drop] at h
    split at h
    · cases h
      exact dispose_outlives s false
    · cases h
      exact dispose_outlives s false
    · cases h
  | _ => exact .inl ((aside_step rfl h).live.trans live)

theorem step_session_le {s s' : Wheel} {e : Event} (h : s.step e = some s') :
    s.session ≤ s'.session := by
  rcases step_passes h with same | next
  · exact Nat.le_of_eq (congrArg Prod.snd same).symm
  · exact Nat.le_of_lt (Nat.lt_of_succ_le (Nat.le_of_eq (congrArg Prod.snd next).symm))

end Wheel

namespace StaticWheelDef

@[simp] theorem put_wheel (s : StaticWheelDef) (i : Nat) (p : Party) : (s.put i p).wheel = s.wheel :=
  rfl

@[simp] theorem put_lock (s : StaticWheelDef) (i : Nat) (p : Party) : (s.put i p).lock = s.lock := rfl

@[simp] theorem put_self (s : StaticWheelDef) (i : Nat) (p : Party) : (s.put i p).parties i = p := by
  simp [put]

theorem put_other (s : StaticWheelDef) {i j : Nat} (p : Party) (other : j ≠ i) :
    (s.put i p).parties j = s.parties j := by
  simp [put, other]

theorem put_hold (s : StaticWheelDef) (i : Nat) (handles : List StaticHandle)
    (pending : Option (StaticHandle × Call)) (j : Nat) :
    ((s.put i ⟨(s.parties i).hold, handles, pending⟩).parties j).hold = (s.parties j).hold := by
  by_cases here : j = i
  · rw [here, put_self]
  · rw [put_other s _ here]

theorem put_handles (s : StaticWheelDef) (i : Nat) (hold : Hold)
    (pending : Option (StaticHandle × Call)) (j : Nat) :
    ((s.put i ⟨hold, (s.parties i).handles, pending⟩).parties j).handles = (s.parties j).handles := by
  by_cases here : j = i
  · rw [here, put_self]
  · rw [put_other s _ here]

theorem put_pending (s : StaticWheelDef) (i : Nat) (hold : Hold) (handles : List StaticHandle)
    (j : Nat) :
    ((s.put i ⟨hold, handles, (s.parties i).pending⟩).parties j).pending = (s.parties j).pending := by
  by_cases here : j = i
  · rw [here, put_self]
  · rw [put_other s _ here]

/-- No call is in progress on a thread that runs no user code of the session. -/
theorem Governed.no_pending {s : StaticWheelDef} (governed : Governed s) {i : Nat}
    (owner : (s.parties i).hold ≠ .none) (clear : (s.parties i).pending = none) (j : Nat) :
    (s.parties j).pending = none := by
  cases waiting : (s.parties j).pending with
  | none => rfl
  | some call =>
    have hold := (governed.pending j call.1 call.2 waiting).1
    have same : j = i := governed.alone j i (by rw [hold]; simp) owner
    rw [same, clear] at waiting
    cases waiting

/-- A handle that is valid belongs to the thread that holds the wheel, until the generation
counter comes round. -/
theorem Governed.current {s : StaticWheelDef} (governed : Governed s) (few : s.wheel.session ≤ usizeMax)
    {i : Nat} {h : StaticHandle} (own : h ∈ (s.parties i).handles)
    (valid : h.generationId = s.wheel.alg.currentGeneration) :
    h.session = s.wheel.session ∧ (s.parties i).hold = .wheel ∧ s.wheel.live = true := by
  obtain ⟨generation, past, here⟩ := governed.handles i h own
  have now : s.wheel.alg.currentGeneration = s.wheel.session % (usizeMax + 1) := governed.aligned
  rw [valid, now, Nat.mod_eq_of_lt (by omega), Nat.mod_eq_of_lt (by omega)] at generation
  exact ⟨generation.symm, here generation.symm⟩

/-! One lemma for each event. -/

theorem tryLock_governed {s s' : StaticWheelDef} {i : Nat} (governed : Governed s)
    (h : s.tryLock i = some s') : Governed s' := by
  unfold tryLock at h
  split at h
  case isFalse => cases h
  rename_i user
  split at h
  · cases h
    exact governed
  rename_i open_
  cases h
  have nobody : ∀ j, (s.parties j).hold = .none := by
    intro j
    by_contra held
    exact open_ (governed.locked j held)
  constructor
  case aligned => exact governed.aligned
  case locked => exact fun _ _ => rfl
  case alone =>
    intro j k first second
    by_cases hj : j = i
    · by_cases hk : k = i
      · rw [hj, hk]
      · rw [put_other _ _ hk] at second
        exact absurd (nobody k) second
    · rw [put_other _ _ hj] at first
      exact absurd (nobody j) first
  case free => exact fun _ => governed.free (fun j => by simp [nobody j])
  case handles =>
    intro j hd own
    rw [put_handles] at own
    obtain ⟨generation, past, current⟩ := governed.handles j hd own
    refine ⟨generation, past, fun now => ?_⟩
    have held := (current now).1
    rw [nobody j] at held
    cases held
  case pending =>
    intro j hd c waiting
    rw [put_pending] at waiting
    have held := (governed.pending j hd c waiting).1
    rw [nobody j] at held
    cases held

theorem init_governed {s s' : StaticWheelDef} {i : Nat} (governed : Governed s)
    (h : s.init i = some s') : Governed s' := by
  unfold init at h
  split at h
  case isFalse => cases h
  rename_i entering
  obtain ⟨w, taken, rfl⟩ := Option.map_eq_some_iff.mp h
  have others : ∀ j, j ≠ i → (s.parties j).hold = .none := by
    intro j other
    by_contra held
    exact other (governed.alone j i held (by rw [entering]; simp))
  have unheld : ∀ j, (s.parties j).hold ≠ .wheel := by
    intro j held
    by_cases here : j = i
    · rw [here, entering] at held
      cases held
    · rw [others j here] at held
      cases held
  constructor
  case aligned => exact Wheel.aligned_step governed.aligned taken
  case locked => exact fun _ _ => governed.locked i (by rw [entering]; simp)
  case alone =>
    intro j k first second
    by_cases hj : j = i
    · by_cases hk : k = i
      · rw [hj, hk]
      · rw [put_other _ _ hk] at second
        exact absurd (others k hk) second
    · rw [put_other _ _ hj] at first
      exact absurd (others j hj) first
  case free => exact fun bad => absurd (by simp) (bad i)
  case handles =>
    intro j hd own
    rw [put_handles] at own
    obtain ⟨generation, past, current⟩ := governed.handles j hd own
    have old : hd.session ≠ s.wheel.session := fun now => unheld j (current now).1
    have later := Wheel.step_session_le taken
    simp only [put_wheel]
    exact ⟨generation, by omega, fun now => absurd now (by omega)⟩
  case pending =>
    intro j hd c waiting
    rw [put_pending] at waiting
    exact absurd (governed.pending j hd c waiting).1 (unheld j)

theorem own_governed {s s' : StaticWheelDef} {i : Nat} {e : St.Event} (governed : Governed s)
    (h : s.own i e = some s') : Governed s' := by
  unfold own at h
  split at h
  case isFalse => cases h
  rename_i allowed
  obtain ⟨held, clear, _, _⟩ := allowed
  obtain ⟨w, taken, rfl⟩ := Option.map_eq_some_iff.mp h
  have none := governed.no_pending (i := i) (by rw [held]; simp) (by simpa using clear)
  constructor
  case aligned => exact Wheel.aligned_step governed.aligned taken
  case locked => exact governed.locked
  case alone => exact governed.alone
  case free => exact fun bad => absurd held (bad i)
  case handles =>
    intro j hd own
    obtain ⟨generation, past, current⟩ := governed.handles j hd own
    have later := Wheel.step_session_le taken
    refine ⟨generation, Nat.le_trans past later, fun now => ?_⟩
    have now : hd.session = w.session := now
    obtain ⟨held, live⟩ := current (by omega)
    rcases Wheel.step_outlives live taken with live | ended
    · exact ⟨held, live⟩
    · omega
  case pending =>
    intro j hd c waiting
    have bad := (none j).symm.trans waiting
    cases bad

theorem waker_governed {s s' : StaticWheelDef} {e : St.Event} (governed : Governed s)
    (h : s.waker e = some s') : Governed s' := by
  unfold waker at h
  split at h
  case isFalse => cases h
  rename_i wakes
  obtain ⟨w, taken, rfl⟩ := Option.map_eq_some_iff.mp h
  have aside : Wheel.Aside s.wheel w := by
    refine Wheel.aside_step ?_ taken
    cases e <;> first | rfl | cases wakes
  have session : w.session = s.wheel.session := congrArg Prod.snd aside.epoch
  constructor
  case aligned => exact Wheel.aligned_step governed.aligned taken
  case locked => exact governed.locked
  case alone => exact governed.alone
  case free =>
    intro unheld
    rcases aside.pc' with pc | ⟨v, before, _⟩
    · exact pc.trans (governed.free unheld)
    · rw [governed.free unheld] at before
      cases before
  case handles =>
    intro j hd own
    obtain ⟨generation, past, current⟩ := governed.handles j hd own
    simp only [session, aside.live]
    exact ⟨generation, past, current⟩
  case pending =>
    intro j hd c waiting
    simp only [session, aside.live, aside.userCode]
    exact governed.pending j hd c waiting

theorem handle_governed {s s' : StaticWheelDef} {i : Nat} (governed : Governed s)
    (h : s.handle i = some s') : Governed s' := by
  unfold handle at h
  split at h
  case isFalse => cases h
  rename_i allowed
  obtain ⟨held, user, live⟩ := allowed
  cases h
  constructor
  case aligned => exact governed.aligned
  case locked =>
    intro j held
    rw [put_hold] at held
    exact governed.locked j held
  case alone =>
    intro j k first second
    rw [put_hold] at first
    rw [put_hold] at second
    exact governed.alone j k first second
  case free =>
    intro unheld
    refine governed.free (fun j => ?_)
    have here := unheld j
    rwa [put_hold] at here
  case handles =>
    intro j hd own
    rw [put_hold]
    by_cases here : j = i
    · subst here
      rw [put_self] at own
      rcases List.mem_cons.mp own with rfl | own
      · exact ⟨governed.aligned, Nat.le_refl _, fun _ => ⟨held, live⟩⟩
      · exact governed.handles j hd own
    · rw [put_other _ _ here] at own
      exact governed.handles j hd own
  case pending =>
    intro j hd c waiting
    rw [put_pending] at waiting
    rw [put_hold]
    exact governed.pending j hd c waiting

theorem isValid_governed {s s' : StaticWheelDef} {i n : Nat} {c : Call} (governed : Governed s)
    (few : s.wheel.session ≤ usizeMax) (h : s.isValid i n c = some s') : Governed s' := by
  unfold isValid at h
  split at h
  case isFalse => cases h
  rename_i user
  split at h
  case h_2 => cases h
  rename_i hd found
  split at h
  case isFalse =>
    cases h
    exact governed
  rename_i valid
  cases h
  obtain ⟨now, held, live⟩ := governed.current few (List.mem_of_getElem? found) valid
  constructor
  case aligned => exact governed.aligned
  case locked =>
    intro j held
    rw [put_hold] at held
    exact governed.locked j held
  case alone =>
    intro j k first second
    rw [put_hold] at first second
    exact governed.alone j k first second
  case free =>
    intro unheld
    refine governed.free (fun j => ?_)
    have here := unheld j
    rwa [put_hold] at here
  case handles =>
    intro j hd' own
    rw [put_handles] at own
    rw [put_hold]
    exact governed.handles j hd' own
  case pending =>
    intro j hd' c' waiting
    rw [put_hold]
    by_cases here : j = i
    · subst here
      rw [put_self] at waiting
      cases waiting
      have code := (Bool.and_eq_true_iff.mp user).2
      rw [held] at code
      exact ⟨held, (Bool.and_eq_true_iff.mp code).1, live, now⟩
    · rw [put_other _ _ here] at waiting
      exact governed.pending j hd' c' waiting

/-- A call that has passed the check is one of the thread that holds the wheel, which makes
it as if it were alone. -/
theorem Governed.acts {s : StaticWheelDef} (governed : Governed s) {i : Nat} {hd : StaticHandle}
    {c : Call} (waiting : (s.parties i).pending = some (hd, c)) :
    (s.parties i).hold = .wheel ∧
      s.wheel.step (.call hd.session c) = some (s.wheel.perform c).settle := by
  obtain ⟨held, user, live, now⟩ := governed.pending i hd c waiting
  have valid : s.wheel.isValid hd.session = true := by
    have aligned : s.wheel.alg.currentGeneration = s.wheel.session % (usizeMax + 1) := governed.aligned
    simp only [Wheel.isValid, now, aligned, decide_true]
  simp [Wheel.step, Wheel.call, held, user, live, now, now ▸ valid]

theorem perform_governed {s s' : StaticWheelDef} {i : Nat} (governed : Governed s)
    (h : s.perform i = some s') : Governed s' := by
  unfold perform at h
  split at h
  case h_2 => cases h
  rename_i hd c waiting
  obtain ⟨held, taken⟩ := governed.acts waiting
  simp only [held, if_true] at h
  cases h
  have aside := Wheel.aside_step rfl taken
  have session : (s.wheel.perform c).settle.session = s.wheel.session :=
    congrArg Prod.snd aside.epoch
  constructor
  case aligned => exact Wheel.aligned_step governed.aligned taken
  case locked =>
    intro j other
    exact governed.locked i (by rw [held]; simp)
  case alone =>
    intro j k first second
    have first : (s.parties j).hold ≠ .none := by
      by_cases here : j = i
      · rw [here, held]
        simp
      · rwa [put_other _ _ here] at first
    have second : (s.parties k).hold ≠ .none := by
      by_cases here : k = i
      · rw [here, held]
        simp
      · rwa [put_other _ _ here] at second
    exact governed.alone j k first second
  case free => exact fun unheld => absurd (by simp) (unheld i)
  case handles =>
    intro j hd' own
    have own' : hd' ∈ (s.parties j).handles := by
      by_cases here : j = i
      · subst here
        simpa using own
      · rwa [put_other _ _ here] at own
    obtain ⟨generation, past, current⟩ := governed.handles j hd' own'
    simp only [put_wheel, session, aside.live]
    refine ⟨generation, past, fun now => ⟨?_, (current now).2⟩⟩
    by_cases here : j = i
    · subst here
      simp
    · rw [put_other _ _ here]
      exact (current now).1
  case pending =>
    intro j hd' c' waiting'
    by_cases here : j = i
    · subst here
      simp at waiting'
    · rw [put_other _ _ here] at waiting'
      have also := (governed.pending j hd' c' waiting').1
      exact absurd (governed.alone j i (by rw [also]; simp) (by rw [held]; simp)) here

theorem unlock_governed {s s' : StaticWheelDef} {i : Nat} (governed : Governed s)
    (h : s.unlock i = some s') : Governed s' := by
  unfold unlock at h
  split at h
  case isFalse => cases h
  rename_i allowed
  obtain ⟨held, clear, pc⟩ := allowed
  cases h
  have others : ∀ j, j ≠ i → (s.parties j).hold = .none := by
    intro j other
    by_contra also
    exact other (governed.alone j i also (by rw [held]; simp))
  have nobody : ∀ j, (({ s with lock := false }.put i
      { s.parties i with hold := .none }).parties j).hold = .none := by
    intro j
    by_cases here : j = i
    · subst here
      simp
    · rw [put_other _ _ here]
      exact others j here
  have dead : ¬ s.wheel.live = true := by simp [Wheel.live, pc]
  constructor
  case aligned => exact governed.aligned
  case locked => exact fun j held => absurd (nobody j) held
  case alone => exact fun j _ held _ => absurd (nobody j) held
  case free => exact fun _ => pc
  case handles =>
    intro j hd own
    rw [put_handles] at own
    obtain ⟨generation, past, current⟩ := governed.handles j hd own
    exact ⟨generation, past, fun now => absurd (current now).2 dead⟩
  case pending =>
    intro j hd c waiting
    rw [put_pending] at waiting
    exact absurd (governed.pending j hd c waiting).2.2.1 dead

/-- Fewer sessions have begun than there are generations. -/
def fewSessions (_ : StaticWheelDef) (_ : Event) (s' : StaticWheelDef) : Prop :=
  s'.wheel.session ≤ usizeMax

instance (s : StaticWheelDef) (e : Event) (s' : StaticWheelDef) : Decidable (fewSessions s e s') :=
  inferInstanceAs (Decidable (_ ≤ _))

theorem governed_step {s s' : StaticWheelDef} {e : Event} (governed : Governed s)
    (h : s.step e = some s') (few : fewSessions s e s') : Governed s' := by
  cases e with
  | tryLock i => exact tryLock_governed governed h
  | init i => exact init_governed governed h
  | own i e => exact own_governed governed h
  | waker e => exact waker_governed governed h
  | handle i => exact handle_governed governed h
  | isValid i n c =>
    have same : s'.wheel = s.wheel := by
      simp only [step, isValid] at h
      split at h
      · split at h
        · split at h <;> cases h <;> rfl
        · cases h
      · cases h
    refine isValid_governed governed ?_ h
    rw [← same]
    exact few
  | perform i => exact perform_governed governed h
  | unlock i => exact unlock_governed governed h

theorem fromRawConfig_governed (config : List StaticParams) : Governed (fromRawConfig config) where
  aligned := by
    show (0 : Nat) = 0 % (usizeMax + 1)
    simp
  locked i held := absurd rfl held
  alone i j held := absurd rfl held
  free _ := rfl
  handles i h own := by simp [fromRawConfig] at own
  pending i h c waiting := by simp [fromRawConfig] at waiting

/-- The wheel goes the way of one that belongs to a single thread. -/
theorem shows_step {s s' : StaticWheelDef} {e : Event} (governed : Governed s)
    (h : s.step e = some s') :
    Path (fun w e w' => w.step e = some w') s.wheel (s.shows e) s'.wheel := by
  cases e with
  | tryLock i =>
    simp only [step, tryLock] at h
    split at h
    · split at h <;> cases h <;> exact .nil _
    · cases h
  | init i =>
    simp only [step, init] at h
    split at h
    · obtain ⟨w, taken, rfl⟩ := Option.map_eq_some_iff.mp h
      exact .one taken
    · cases h
  | own i e =>
    simp only [step, own] at h
    split at h
    · obtain ⟨w, taken, rfl⟩ := Option.map_eq_some_iff.mp h
      exact .one taken
    · cases h
  | waker e =>
    simp only [step, waker] at h
    split at h
    · obtain ⟨w, taken, rfl⟩ := Option.map_eq_some_iff.mp h
      exact .one taken
    · cases h
  | handle i =>
    simp only [step, handle] at h
    split at h
    · cases h
      exact .nil _
    · cases h
  | isValid i n c =>
    simp only [step, isValid] at h
    split at h
    · split at h
      · split at h <;> cases h <;> exact .nil _
      · cases h
    · cases h
  | perform i =>
    simp only [step, perform] at h
    split at h
    · rename_i hd c waiting
      obtain ⟨held, taken⟩ := governed.acts waiting
      simp only [held, if_true] at h
      cases h
      simp only [shows, waiting]
      exact .one taken
    · cases h
  | unlock i =>
    simp only [step, unlock] at h
    split at h
    · cases h
      exact .nil _
    · cases h

/-- Threads that share a wheel definition have it in turns: the wheel is on one thread at
most, calls act on that thread only, and the wheel goes through a run of its own in which
the other threads do nothing but wake tasks. -/
theorem threads_take_turns {config : List StaticParams} {s : StaticWheelDef} {es : List Event}
    (run : exec step (fromRawConfig config) es = some s)
    (few : Along step fewSessions (fromRawConfig config) es) :
    (∀ i j, (s.parties i).hold ≠ .none → (s.parties j).hold ≠ .none → i = j) ∧
      (∀ i call, (s.parties i).pending = some call → (s.parties i).hold = .wheel) ∧
      exec Wheel.step (Wheel.new config) (shown step shows (fromRawConfig config) es) =
        some s.wheel := by
  obtain ⟨w, path, rfl, governed⟩ : ∃ w, Path (fun w e w' => Wheel.step w e = some w')
      (Wheel.new config) (shown step shows (fromRawConfig config) es) w ∧ s.wheel = w ∧ Governed s := by
    refine simulation_along (R := fun s w => s.wheel = w ∧ Governed s) ?_
      ⟨rfl, fromRawConfig_governed config⟩ run few
    rintro s w e t ⟨rfl, governed⟩ taken few
    exact ⟨t.wheel, shows_step governed taken, rfl, governed_step governed taken few⟩
  exact ⟨governed.alone, fun i call waiting => (governed.pending i call.1 call.2 waiting).1,
    path.exec⟩

/-- Two threads lock the wheel one after the other, and the first keeps its handle. -/
def twoThreads : List Event :=
  [.tryLock 0, .init 0, .tryLock 1, .handle 0, .isValid 0 0 (.suspend 1), .waker (.wakeBegin 0),
    .perform 0, .own 0 .drop, .own 0 .run, .own 0 .run, .own 0 .run, .own 0 .run, .own 0 .run,
    .unlock 0, .tryLock 1, .init 1, .isValid 0 0 (.cancel 0), .waker (.wakeStep 0)]

theorem threads_take_turns_two :
    ∃ s, exec step (fromRawConfig Wheel.pair) twoThreads = some s ∧
      (s.parties 0).hold = .none ∧ (s.parties 1).hold = .wheel ∧ (s.parties 0).pending = none ∧
      exec Wheel.step (Wheel.new Wheel.pair) (shown step shows (fromRawConfig Wheel.pair) twoThreads) =
        some s.wheel := by
  have run : exec step (fromRawConfig Wheel.pair) twoThreads =
      some (last step (fromRawConfig Wheel.pair) twoThreads) := exec_last (by decide +kernel)
  exact ⟨_, run, by decide +kernel, by decide +kernel, by decide +kernel,
    (threads_take_turns run (by decide +kernel)).2.2⟩

/-! When the generation counter has come round, a handle of the first session passes the
check while another thread has the wheel. -/

/-- A wheel without tasks, after `n` sessions, of which thread 0 still has a handle. -/
structure Worn (n : Nat) (s : StaticWheelDef) : Prop where
  lock : s.lock = false
  first : s.parties 0 = ⟨.none, [⟨0, 0⟩], none⟩
  second : s.parties 1 = ⟨.none, [], none⟩
  pc : s.wheel.pc = .unlocked
  tasks : s.wheel.alg.registry.length = 0
  unfinished : s.wheel.alg.unfinishedCount = 0
  session : s.wheel.session = n
  aligned : s.wheel.Aligned

def firstSession : List Event := [.tryLock 0, .init 0, .handle 0, .own 0 .drop, .unlock 0]

def enters : List Event := [.tryLock 1, .init 1, .own 1 .run]

def leaves : List Event := [.own 1 .drop, .unlock 1]

theorem worn_first : ∃ s, exec step (fromRawConfig []) firstSession = some s ∧ Worn 1 s := by
  refine ⟨last step (fromRawConfig []) firstSession, exec_last (by decide +kernel), ?_⟩
  constructor
  case aligned =>
    show _ = (_ : Nat)
    decide +kernel
  all_goals decide +kernel

/-- Thread 1 has locked the wheel, and `init` has found no tasks. -/
theorem Worn.enters {n : Nat} {s : StaticWheelDef} (worn : Worn n s) :
    exec step s enters = some
      (StaticWheelDef.put ⟨true, s.wheel.started 0, s.parties⟩ 1 ⟨.wheel, [], none⟩) := by
  have opens : s.wheel.step .lock = some (s.wheel.goto (.init 0 0)) := by
    simp [Wheel.step, Wheel.lock, worn.pc, worn.unfinished, usizeMax]
  have begins : (s.wheel.goto (.init 0 0)).step .run = some (s.wheel.started 0) := by
    simp [Wheel.step, Wheel.run, Wheel.goto, worn.tasks]
    rfl
  have locks : s.step (.tryLock 1) =
      some (StaticWheelDef.put ⟨true, s.wheel, s.parties⟩ 1 ⟨.entering, [], none⟩) := by
    simp [step, tryLock, runsUser, worn.second, worn.lock]
  simp only [StaticWheelDef.enters, exec, locks, Option.bind_some]
  simp [step, init, opens, own, put, Event.owned, begins]
  simp [Wheel.goto]

/-- The session ends, and one more generation with it. -/
theorem Worn.next {n : Nat} {s : StaticWheelDef} (worn : Worn n s) :
    ∃ t, exec step s (StaticWheelDef.enters ++ leaves) = some t ∧ Worn (n + 1) t := by
  have drops : (s.wheel.started 0).step .drop = some (s.wheel.started 0).release := by
    simp [Wheel.step, Wheel.drop, Wheel.dispose, Wheel.started, worn.tasks]
  refine ⟨StaticWheelDef.put ⟨false, (s.wheel.started 0).release, s.parties⟩ 1 ⟨.none, [], none⟩,
    exec_append worn.enters ?_, ?_⟩
  · simp [leaves, exec, step, own, unlock, put, Event.owned, drops]
    simp [Wheel.started, Wheel.release]
  · have aligned : (s.wheel.started 0).Aligned := worn.aligned
    constructor
    case aligned => exact Wheel.aligned_step aligned drops
    case session => exact congrArg Nat.succ worn.session
    case first => exact (put_other _ _ (by decide)).trans worn.first
    case second => exact put_self _ _ _
    case tasks => exact worn.tasks
    case unfinished => exact worn.tasks
    all_goals rfl

theorem worn_after (n : Nat) : ∃ es s, exec step (fromRawConfig []) es = some s ∧ Worn (n + 1) s := by
  induction n with
  | zero => exact ⟨_, worn_first⟩
  | succ n ih =>
    obtain ⟨es, s, run, worn⟩ := ih
    obtain ⟨t, next, worn⟩ := worn.next
    exact ⟨_, t, exec_append run next, worn⟩

/-- The bound on the sessions cannot be raised: when as many sessions have ended as there
are generations, a handle of the first one is valid again on a thread without the wheel. -/
theorem stale_handle_passes : ∃ es s call, exec step (fromRawConfig []) es = some s ∧
    s.wheel.session = usizeMax + 1 ∧ (s.parties 1).hold = .wheel ∧
    (s.parties 0).hold = .none ∧ (s.parties 0).pending = some call := by
  obtain ⟨es, s, run, worn⟩ := worn_after usizeMax
  have around : s.wheel.alg.currentGeneration = 0 := by
    have aligned : s.wheel.alg.currentGeneration = s.wheel.session % (usizeMax + 1) := worn.aligned
    rw [aligned, worn.session, Nat.mod_self]
  let t := StaticWheelDef.put ⟨true, s.wheel.started 0, s.parties⟩ 1 ⟨.wheel, [], none⟩
  have first : t.parties 0 = ⟨.none, [⟨0, 0⟩], none⟩ := (put_other _ _ (by decide)).trans worn.first
  have generation : t.wheel.alg.currentGeneration = 0 := around
  have checks : exec step t [.isValid 0 0 .current] =
      some (t.put 0 ⟨.none, [⟨0, 0⟩], some (⟨0, 0⟩, .current)⟩) := by
    simp [exec, step, isValid, runsUser, first, generation]
  refine ⟨_, _, (⟨0, 0⟩, .current), exec_append run (exec_append worn.enters checks), worn.session,
    ?_, ?_, ?_⟩
  · rw [put_other _ _ (by decide)]
    rfl
  · rw [put_self]
  · rw [put_self]

end StaticWheelDef
end Juggle.St
