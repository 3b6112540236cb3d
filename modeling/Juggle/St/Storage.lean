import Mathlib.Data.List.Induction
import Juggle.St.Config

/-! The storage of one static task as `handle_task` sees it: a flag byte beside memory that
does not know whether a value lives in it. Everything that happens to a future is written
to a log; an entry is permitted or not by the entries before it. -/
namespace Juggle.St.LifeCycle

def flagUninit : UInt8 := 0
def flagCreated : UInt8 := 1
def flagDropped : UInt8 := 2

/-- What happens to a future. `garbage` is a use of memory that was never written. -/
inductive Act where
  | init (v : FutureId)
  | store (v : FutureId)
  | pollBegin (v : FutureId)
  | pollReady (v : FutureId)
  | pollPending (v : FutureId)
  | pollPanic (v : FutureId)
  | dropBegin (v : FutureId)
  | dropEnd (v : FutureId)
  | dropPanic (v : FutureId)
  | garbage
  deriving DecidableEq

def Act.value : Act → Option FutureId
  | .init v | .store v | .pollBegin v | .pollReady v | .pollPending v | .pollPanic v
  | .dropBegin v | .dropEnd v | .dropPanic v => some v
  | .garbage => none

/-- `task` is the value last written to the memory, dropped or not. The number of futures
created so far and the log are ghosts. -/
structure Storage where
  flag : UInt8
  task : Option FutureId
  created : FutureId
  acts : List Act

def new : Storage := ⟨flagUninit, none, 0, []⟩

inductive PollScript where
  | ready
  | pending
  | panic
  deriving DecidableEq

/-- What the user code of one call does: the destructor of the previous value, the `init`
closure, the poll and the destructor of the finished value. -/
structure Script where
  dropPanics : Bool
  initPanics : Bool
  poll : PollScript
  donePanics : Bool

inductive Outcome where
  | ready
  | pending
  | panicked
  deriving DecidableEq

def log (s : Storage) (a : Act) : Storage := { s with acts := s.acts ++ [a] }

/-- `task.as_mut_ptr().drop_in_place()`. -/
def dropInPlace (s : Storage) (panics : Bool) : Storage :=
  match s.task with
  | none => log s .garbage
  | some v => log (log s (.dropBegin v)) (if panics then .dropPanic v else .dropEnd v)

/-- The end of `handle_task`, from the poll on. -/
def pollTask (s : Storage) (script : Script) : Storage × Outcome :=
  match s.task with
  | none => (log s .garbage, .panicked)
  | some v =>
    let s := log s (.pollBegin v)
    match script.poll with
    | .panic => (log s (.pollPanic v), .panicked)
    | .pending => (log s (.pollPending v), .pending)
    | .ready =>
      let s := { log s (.pollReady v) with flag := flagDropped }
      (dropInPlace s script.donePanics, if script.donePanics then .panicked else .ready)

/-- `*task = MaybeUninit::new(init())`, the flag after it, and the poll. -/
def create (s : Storage) (script : Script) : Storage × Outcome :=
  if script.initPanics then (s, .panicked)
  else
    let v := s.created
    let s := log { s with created := v + 1 } (.init v)
    let s := { log s (.store v) with task := some v, flag := flagCreated }
    pollTask s script

/-- The match on the flag that drops the previous value; whether its destructor unwinds. -/
def dropAnyways (s : Storage) (status : Status) (script : Script) : Storage × Bool :=
  if s.flag = flagCreated then
    let flag := if status = .restartTask ∨ status = .uninitTask then flagUninit else flagDropped
    (dropInPlace { s with flag } script.dropPanics, script.dropPanics)
  else if s.flag = flagDropped ∧ status = .uninitTask then ({ s with flag := flagUninit }, false)
  else if s.flag = flagUninit ∧ status = .cancelTask then ({ s with flag := flagDropped }, false)
  else (s, false)

def handleTask (s : Storage) (status : Status) (script : Script) : Storage × Outcome :=
  if status ≠ .poll then
    let r := dropAnyways s status script
    if r.2 then (r.1, .panicked)
    else if status = .restartTask then create r.1 script
    else (r.1, .ready)
  else if s.flag = flagUninit then create s script
  else if s.flag = flagDropped then (s, .ready)
  else pollTask s script

/-- The calls made on one task, a panic ends the call it happens in. -/
def calls (s : Storage) (cs : List (Status × Script)) : Storage :=
  cs.foldl (fun s c => (handleTask s c.1 c.2).1) s

/-- A value is in the storage and its drop has not begun. -/
def Alive (acts : List Act) (v : FutureId) : Prop := .store v ∈ acts ∧ .dropBegin v ∉ acts

/-- What may happen after the log so far. -/
def Permitted (past : List Act) : Act → Prop
  | .store v => .init v ∈ past ∧ .store v ∉ past ∧ ∀ w, ¬ Alive past w
  | .pollBegin v => Alive past v ∧ .pollReady v ∉ past
  | .dropBegin v => Alive past v
  | .garbage => False
  | _ => True

/-- Every entry of the log is permitted by the entries before it. -/
def Lawful (acts : List Act) : Prop :=
  ∀ past a rest, acts = past ++ a :: rest → Permitted past a

theorem Lawful.snoc {acts : List Act} {a : Act} (lawful : Lawful acts)
    (permitted : Permitted acts a) : Lawful (acts ++ [a]) := by
  intro past b rest split
  rcases List.eq_nil_or_concat rest with rfl | ⟨front, last, rfl⟩
  · obtain ⟨same, final⟩ := List.append_inj' split rfl
    cases final
    exact same ▸ permitted
  · have longer : acts ++ [a] = (past ++ b :: front) ++ [last] := by simpa using split
    obtain ⟨same, -⟩ := List.append_inj' longer rfl
    exact lawful past b front same

/-- The log is in order and the values alive are as many as `flag` says. -/
structure Kept (s : Storage) : Prop where
  lawful : Lawful s.acts
  known : ∀ a ∈ s.acts, ∀ v, a.value = some v → v < s.created
  byte : s.flag = flagUninit ∨ s.flag = flagCreated ∨ s.flag = flagDropped
  held : s.flag = flagCreated → ∃ v, s.task = some v
  alive : ∀ v, Alive s.acts v ↔ s.flag = flagCreated ∧ s.task = some v

/-- Between two calls no value alive has returned `Ready`. -/
structure Tidy (s : Storage) : Prop where
  kept : Kept s
  unready : ∀ v, Alive s.acts v → .pollReady v ∉ s.acts

theorem new_tidy : Tidy new where
  kept := {
    lawful := by
      intro past a rest split
      cases past <;> cases split
    known := fun a member => by cases member
    byte := .inl rfl
    held := fun live => by cases live
    alive := fun v => by
      constructor
      · rintro ⟨stored, -⟩
        cases stored
      · rintro ⟨flag, -⟩
        cases flag }
  unready v alive := by cases alive.1

/-- Entries that neither store nor drop leave the values alive as they are. -/
theorem alive_log {acts : List Act} {a : Act} (quiet : ∀ w, a ≠ .store w ∧ a ≠ .dropBegin w)
    (v : FutureId) : Alive (acts ++ [a]) v ↔ Alive acts v := by
  have store := (quiet v).1.symm
  have drop := (quiet v).2.symm
  simp [Alive, store, drop]

theorem Kept.log {s : Storage} (inv : Kept s) {a : Act} (permitted : Permitted s.acts a)
    (quiet : ∀ w, a ≠ .store w ∧ a ≠ .dropBegin w)
    (value : ∀ v, a.value = some v → v < s.created) : Kept (log s a) where
  lawful := inv.lawful.snoc permitted
  known b member v shown := by
    rcases List.mem_append.mp member with old | new
    · exact inv.known b old v shown
    · cases List.mem_singleton.mp new
      exact value v shown
  byte := inv.byte
  held := inv.held
  alive v := (alive_log quiet v).trans (inv.alive v)

theorem Tidy.log {s : Storage} (inv : Tidy s) {a : Act} (permitted : Permitted s.acts a)
    (quiet : ∀ w, a ≠ .store w ∧ a ≠ .dropBegin w) (pending : ∀ w, a ≠ .pollReady w)
    (value : ∀ v, a.value = some v → v < s.created) : Tidy (log s a) where
  kept := inv.kept.log permitted quiet value
  unready v alive ready := by
    rcases List.mem_append.mp ready with old | new
    · exact inv.unready v ((alive_log quiet v).mp alive) old
    · exact pending v (List.mem_singleton.mp new).symm

section Calls
variable {s : Storage}

/-- Dropping the value that is alive leaves none, whether the destructor unwinds or not. -/
theorem dropInPlace_tidy (inv : Kept s) {v : FutureId} (live : s.flag = flagCreated)
    (held : s.task = some v) {flag : UInt8} (byte : flag = flagUninit ∨ flag = flagDropped)
    (panics : Bool) : Tidy (dropInPlace { s with flag } panics) ∧
      (dropInPlace { s with flag } panics).flag = flag := by
  have alive : Alive s.acts v := (inv.alive v).mpr ⟨live, held⟩
  have below : v < s.created := inv.known _ alive.1 v rfl
  have nobody : ∀ w, ¬ Alive (s.acts ++ [.dropBegin v]) w := by
    rintro w ⟨stored, undropped⟩
    have before : Alive s.acts w :=
      ⟨by simpa using stored, fun gone => undropped (List.mem_append_left _ gone)⟩
    have same : w = v := by
      have := ((inv.alive w).mp before).2
      exact Option.some.inj (this.symm.trans held)
    exact undropped (by simp [same])
  have other : flag ≠ flagCreated := by
    rcases byte with rfl | rfl <;> decide
  have begun : Kept (log { s with flag } (.dropBegin v)) := {
    lawful := inv.lawful.snoc alive
    known := fun a member w shown => by
      rcases List.mem_append.mp member with old | new
      · exact inv.known a old w shown
      · cases List.mem_singleton.mp new
        cases shown
        exact below
    byte := byte.elim .inl (fun h => .inr (.inr h))
    held := fun live => absurd live other
    alive := fun w => iff_of_false (nobody w) (fun h => other h.1) }
  have ended : Kept (log (log { s with flag } (.dropBegin v))
      (if panics then .dropPanic v else .dropEnd v)) := by
    refine begun.log ?_ ?_ ?_
    · cases panics <;> trivial
    · intro w
      cases panics <;> simp
    · intro w shown
      have : w = v := by cases panics <;> simpa [Act.value] using shown.symm
      exact this ▸ below
  have shape : dropInPlace { s with flag } panics = log (log { s with flag } (.dropBegin v))
      (if panics then .dropPanic v else .dropEnd v) := by
    simp only [dropInPlace, held]
  rw [shape]
  refine ⟨⟨ended, fun w alive => ?_⟩, rfl⟩
  exact absurd ((ended.alive w).mp alive).1 other

theorem pollTask_tidy (inv : Tidy s) {v : FutureId} (live : s.flag = flagCreated)
    (held : s.task = some v) (script : Script) : Tidy (pollTask s script).1 := by
  have alive : Alive s.acts v := (inv.kept.alive v).mpr ⟨live, held⟩
  have below : v < s.created := inv.kept.known _ alive.1 v rfl
  have mine : ∀ w, some v = some w → w < s.created := by
    rintro w ⟨rfl⟩
    exact below
  have begun : Tidy (log s (.pollBegin v)) :=
    inv.log ⟨alive, inv.unready v alive⟩ (by simp) (by simp) mine
  simp only [pollTask, held]
  cases script.poll with
  | panic => exact begun.log trivial (by simp) (by simp) mine
  | pending => exact begun.log trivial (by simp) (by simp) mine
  | ready =>
    have done : Kept (log (log s (.pollBegin v)) (.pollReady v)) :=
      begun.kept.log trivial (by simp) mine
    have byte : flagDropped = flagUninit ∨ flagDropped = flagDropped := .inr rfl
    exact (dropInPlace_tidy done live held byte script.donePanics).1

/-- Storing a value that was not known before makes it the one alive. -/
theorem alive_store {acts : List Act} {v : FutureId} (nobody : ∀ w, ¬ Alive acts w)
    (fresh : ∀ a ∈ acts, a.value ≠ some v) (w : FutureId) :
    Alive (acts ++ [.init v] ++ [.store v]) w ↔ w = v := by
  constructor
  · rintro ⟨stored, undropped⟩
    rcases List.mem_append.mp stored with old | new
    · have before : Alive (acts ++ [.init v]) w :=
        ⟨old, fun gone => undropped (List.mem_append_left _ gone)⟩
      exact absurd ((alive_log (by simp) w).mp before) (nobody w)
    · exact Act.store.inj (List.mem_singleton.mp new)
  · rintro rfl
    refine ⟨by simp, fun gone => ?_⟩
    exact fresh _ (by simpa using gone) rfl

/-- After its creation the new value is the one stored. -/
theorem stored_tidy (inv : Tidy s) (empty : s.flag ≠ flagCreated) : Tidy
    { log (log { s with created := s.created + 1 } (.init s.created)) (.store s.created) with
      task := some s.created
      flag := flagCreated } := by
  have nobody : ∀ w, ¬ Alive s.acts w := fun w alive => empty ((inv.kept.alive w).mp alive).1
  have fresh : ∀ a ∈ s.acts, a.value ≠ some s.created := by
    intro a member shown
    exact Nat.lt_irrefl _ (inv.kept.known a member _ shown)
  have lawful : Lawful (s.acts ++ [.init s.created]) := inv.kept.lawful.snoc trivial
  have storable : Permitted (s.acts ++ [.init s.created]) (.store s.created) := by
    refine ⟨by simp, fun stored => ?_, fun w alive => nobody w ?_⟩
    · exact fresh _ (by simpa using stored) rfl
    · exact (alive_log (by simp) w).mp alive
  have alive := alive_store nobody fresh
  constructor
  case kept =>
    constructor
    case lawful => exact lawful.snoc storable
    case known =>
      intro a member w shown
      have range : a ∈ s.acts ∨ a.value = some s.created := by
        rcases List.mem_append.mp member with front | new
        · rcases List.mem_append.mp front with old | new
          · exact .inl old
          · exact .inr (List.mem_singleton.mp new ▸ rfl)
        · exact .inr (List.mem_singleton.mp new ▸ rfl)
      rcases range with old | new
      · exact Nat.lt_succ_of_lt (inv.kept.known a old w shown)
      · cases Option.some.inj (new.symm.trans shown)
        exact Nat.lt_succ_self s.created
    case byte => exact .inr (.inl rfl)
    case held => exact fun _ => ⟨s.created, rfl⟩
    case alive =>
      intro w
      refine (alive w).trans ?_
      constructor
      · rintro rfl
        exact ⟨rfl, rfl⟩
      · rintro ⟨-, same⟩
        exact (Option.some.inj same).symm
  case unready =>
    intro w living ready
    cases (alive w).mp living
    exact fresh _ (by simpa [log] using ready) rfl

theorem create_tidy (inv : Tidy s) (empty : s.flag ≠ flagCreated) (script : Script) :
    Tidy (create s script).1 := by
  unfold create
  split
  · exact inv
  · exact pollTask_tidy (stored_tidy inv empty) rfl rfl script

/-- Where no value is alive the flag may move between the two that say so. -/
theorem flag_tidy (inv : Tidy s) (empty : s.flag ≠ flagCreated) {flag : UInt8}
    (byte : flag = flagUninit ∨ flag = flagDropped) : Tidy { s with flag } := by
  have nobody : ∀ w, ¬ Alive s.acts w := fun w alive => empty ((inv.kept.alive w).mp alive).1
  have other : flag ≠ flagCreated := by
    rcases byte with rfl | rfl <;> decide
  exact {
    kept := {
      lawful := inv.kept.lawful
      known := inv.kept.known
      byte := byte.elim .inl (fun h => .inr (.inr h))
      held := fun live => absurd live other
      alive := fun w => iff_of_false (nobody w) (fun h => other h.1) }
    unready := inv.unready }

theorem dropAnyways_tidy (inv : Tidy s) (status : Status) (script : Script) :
    Tidy (dropAnyways s status script).1 ∧ (dropAnyways s status script).1.flag ≠ flagCreated := by
  have uninit : flagUninit ≠ flagCreated := by decide
  have dropped : flagDropped ≠ flagCreated := by decide
  unfold dropAnyways
  split
  · rename_i live
    obtain ⟨v, held⟩ := inv.kept.held live
    have byte : (if status = .restartTask ∨ status = .uninitTask then flagUninit
        else flagDropped) = flagUninit ∨ (if status = .restartTask ∨ status = .uninitTask
        then flagUninit else flagDropped) = flagDropped := by
      split
      · exact .inl rfl
      · exact .inr rfl
    have both := dropInPlace_tidy inv.kept live held byte script.dropPanics
    refine ⟨both.1, fun same => ?_⟩
    rw [both.2] at same
    rcases byte with h | h
    · exact uninit (h ▸ same)
    · exact dropped (h ▸ same)
  · rename_i empty
    split
    · exact ⟨flag_tidy inv empty (.inl rfl), uninit⟩
    · split
      · exact ⟨flag_tidy inv empty (.inr rfl), dropped⟩
      · exact ⟨inv, empty⟩

theorem handleTask_tidy (inv : Tidy s) (status : Status) (script : Script) :
    Tidy (handleTask s status script).1 := by
  obtain ⟨emptied, empty⟩ := dropAnyways_tidy inv status script
  unfold handleTask
  split
  · dsimp only
    split
    · exact emptied
    · split
      · exact create_tidy emptied empty script
      · exact emptied
  · split
    · rename_i uninit
      exact create_tidy inv (by rw [uninit]; decide) script
    · split
      · exact inv
      · rename_i uninit dropped
        have live : s.flag = flagCreated := by
          rcases inv.kept.byte with h | h | h
          · exact absurd h uninit
          · exact h
          · exact absurd h dropped
        obtain ⟨v, held⟩ := inv.kept.held live
        exact pollTask_tidy inv live held script

/-- A call that is to drop the task leaves no value alive, also if the destructor unwinds. -/
theorem handleTask_empties (inv : Tidy s) {status : Status}
    (drops : status = .cancelTask ∨ status = .uninitTask) (script : Script) (v : FutureId) :
    ¬ Alive (handleTask s status script).1.acts v := by
  obtain ⟨emptied, empty⟩ := dropAnyways_tidy inv status script
  have shape : (handleTask s status script).1 = (dropAnyways s status script).1 := by
    rcases drops with rfl | rfl
    · simp only [handleTask, reduceCtorEq, ne_eq, not_false_iff, if_true, if_false]
      split <;> rfl
    · simp only [handleTask, reduceCtorEq, ne_eq, not_false_iff, if_true, if_false]
      split <;> rfl
  rw [shape]
  exact fun alive => empty ((emptied.kept.alive v).mp alive).1

theorem calls_tidy (inv : Tidy s) (cs : List (Status × Script)) : Tidy (calls s cs) := by
  induction cs generalizing s with
  | nil => exact inv
  | cons c cs ih => exact ih (handleTask_tidy inv c.1 c.2)

end Calls

theorem Lawful.front {acts : List Act} {a : Act} (lawful : Lawful (acts ++ [a])) : Lawful acts :=
  fun past b rest shape => lawful past b (rest ++ [a]) (by rw [shape]; simp)

/-- In a log in order no value is dropped twice. -/
theorem Lawful.drop_once {acts : List Act} (lawful : Lawful acts) (v : FutureId) :
    acts.count (.dropBegin v) ≤ 1 := by
  induction acts using List.reverseRecOn with
  | nil => exact Nat.zero_le 1
  | append_singleton acts a ih =>
    rw [List.count_append]
    by_cases same : a = .dropBegin v
    · subst same
      have undropped : .dropBegin v ∉ acts := (lawful acts _ [] rfl).2
      rw [List.count_eq_zero.mpr undropped]
      simp
    · have other : [a].count (.dropBegin v) = 0 := by simp [same]
      rw [other]
      exact ih lawful.front

/-- The flag and the value it stands for, as one. -/
def view (s : Storage) : InitFlag :=
  if s.flag = flagCreated then s.task.elim .uninit .created
  else if s.flag = flagDropped then .dropped
  else .uninit

/-- One stage of a call, and the next stage or how the call ends. -/
def stageStep (status : Status) (script : Script) (fresh : FutureId) :
    InitFlag × Stage → InitFlag × (Stage ⊕ Outcome)
  | (flag, .dropOld _) =>
    (flag, if script.dropPanics then .inr .panicked else .inl (afterDrop status))
  | (flag, .init) =>
    if script.initPanics then (flag, .inr .panicked)
    else ((afterInit fresh).1, .inl (afterInit fresh).2)
  | (flag, .poll v) =>
    match script.poll with
    | .panic => (flag, .inr .panicked)
    | .pending => ((afterPoll v false).1, .inl (afterPoll v false).2)
    | .ready => ((afterPoll v true).1, .inl (afterPoll v true).2)
  | (flag, .dropDone _) => (flag, .inr (if script.donePanics then .panicked else .ready))
  | (flag, .leave isReady) => (flag, .inr (if isReady then .ready else .pending))

/-- The stages of a call; a call has at most five. -/
def runStages (status : Status) (script : Script) (fresh : FutureId) :
    Nat → InitFlag × Stage → Option (InitFlag × Outcome)
  | 0, _ => none
  | fuel + 1, now =>
    match stageStep status script fresh now with
    | (flag, .inl next) => runStages status script fresh fuel (flag, next)
    | (flag, .inr outcome) => some (flag, outcome)

section Stages
variable {s : Storage} {status : Status} {script : Script} {fresh : FutureId}

theorem view_created {v : FutureId} (live : s.flag = flagCreated) (held : s.task = some v) :
    view s = .created v := by
  simp [view, live, held]

theorem view_dropped (flag : s.flag = flagDropped) : view s = .dropped := by
  have other : flagDropped ≠ flagCreated := by decide
  simp [view, flag, other]

theorem view_uninit (flag : s.flag = flagUninit) : view s = .uninit := by
  have created : flagUninit ≠ flagCreated := by decide
  have dropped : flagUninit ≠ flagDropped := by decide
  simp [view, flag, created, dropped]

theorem dropInPlace_flag (s : Storage) (panics : Bool) : (dropInPlace s panics).flag = s.flag := by
  unfold dropInPlace
  split <;> rfl

theorem pollTask_stages {v : FutureId} (live : s.flag = flagCreated) (held : s.task = some v)
    (fuel : Nat) : runStages status script fresh (fuel + 2) (.created v, .poll v) =
      some (view (pollTask s script).1, (pollTask s script).2) := by
  cases result : script.poll with
  | panic =>
    have still : view (log (log s (.pollBegin v)) (.pollPanic v)) = .created v :=
      view_created live held
    simp [runStages, stageStep, pollTask, result, held, still]
  | pending =>
    have still : view (log (log s (.pollBegin v)) (.pollPending v)) = .created v :=
      view_created live held
    simp [runStages, stageStep, pollTask, afterPoll, result, held, still]
  | ready =>
    have gone : ∀ s : Storage, s.flag = flagDropped →
        view (dropInPlace s script.donePanics) = .dropped :=
      fun s dropped => view_dropped ((dropInPlace_flag s _).trans dropped)
    simp [runStages, stageStep, pollTask, afterPoll, result, held, gone]

theorem create_stages {flag : InitFlag} (same : view s = flag) (fuel : Nat) :
    runStages status script s.created (fuel + 3) (flag, .init) =
      some (view (create s script).1, (create s script).2) := by
  cases panics : script.initPanics with
  | true => simp [runStages, stageStep, create, panics, same]
  | false =>
    let stored : Storage :=
      { log (log { s with created := s.created + 1 } (.init s.created)) (.store s.created) with
        task := some s.created
        flag := flagCreated }
    have made : create s script = pollTask stored script := by simp [create, panics, stored]
    have next : runStages status script s.created (fuel + 3) (flag, .init) =
        runStages status script s.created (fuel + 2) (.created s.created, .poll s.created) := by
      rw [runStages]
      simp [stageStep, panics, afterInit]
    rw [next, made]
    exact pollTask_stages rfl rfl fuel

theorem dropInPlace_created (s : Storage) (panics : Bool) :
    (dropInPlace s panics).created = s.created := by
  unfold dropInPlace
  split <;> rfl

/-- The statement that a call and its stages agree. -/
def Agrees (s : Storage) (status : Status) (script : Script) : Prop :=
  runStages status script s.created 5 (St.handleTask (view s) status) =
    some (view (handleTask s status script).1, (handleTask s status script).2)

theorem uninit_agrees (flag : s.flag = flagUninit) (status : Status) (script : Script) :
    Agrees s status script := by
  have seen := view_uninit flag
  have other : flagUninit ≠ flagCreated ∧ flagUninit ≠ flagDropped := by decide
  unfold Agrees
  cases status with
  | poll =>
    have made : handleTask s .poll script = create s script := by simp [handleTask, flag]
    rw [made, seen]
    exact create_stages seen 2
  | restartTask =>
    have made : handleTask s .restartTask script = create s script := by
      simp [handleTask, dropAnyways, flag, other]
    rw [made, seen]
    exact create_stages seen 2
  | cancelTask =>
    have made : handleTask s .cancelTask script = ({ s with flag := flagDropped }, .ready) := by
      simp [handleTask, dropAnyways, flag, other]
    rw [made, seen]
    simp [St.handleTask, runStages, stageStep, view_dropped]
  | uninitTask =>
    have made : handleTask s .uninitTask script = (s, .ready) := by
      simp [handleTask, dropAnyways, flag, other]
    rw [made, seen]
    simp [St.handleTask, runStages, stageStep]

theorem dropped_agrees (flag : s.flag = flagDropped) (status : Status) (script : Script) :
    Agrees s status script := by
  have seen := view_dropped flag
  have other : flagDropped ≠ flagCreated ∧ flagDropped ≠ flagUninit := by decide
  unfold Agrees
  cases status with
  | poll =>
    have made : handleTask s .poll script = (s, .ready) := by simp [handleTask, flag, other]
    rw [made, seen]
    simp [St.handleTask, runStages, stageStep]
  | restartTask =>
    have made : handleTask s .restartTask script = create s script := by
      simp [handleTask, dropAnyways, flag, other]
    rw [made, seen]
    exact create_stages seen 2
  | cancelTask =>
    have made : handleTask s .cancelTask script = (s, .ready) := by
      simp [handleTask, dropAnyways, flag, other]
    rw [made, seen]
    simp [St.handleTask, runStages, stageStep]
  | uninitTask =>
    have made : handleTask s .uninitTask script = ({ s with flag := flagUninit }, .ready) := by
      simp [handleTask, dropAnyways, flag, other]
    rw [made, seen]
    simp [St.handleTask, runStages, stageStep, view_uninit]

theorem view_dropInPlace {v : FutureId} (held : s.task = some v) (flag : UInt8) (panics : Bool) :
    view (dropInPlace { s with flag } panics) = view { s with flag } := by
  simp [view, dropInPlace, held, log]

/-- A call that only drops the value is over when the destructor returns or unwinds. -/
theorem dropping_stages {v : FutureId} {flag : InitFlag} (ends : afterDrop status = .leave true)
    (fuel : Nat) : runStages status script fresh (fuel + 2) (flag, .dropOld v) =
      some (flag, if script.dropPanics then .panicked else .ready) := by
  cases panics : script.dropPanics <;> simp [runStages, stageStep, panics, ends]

theorem created_agrees {v : FutureId} (flag : s.flag = flagCreated) (held : s.task = some v)
    (status : Status) (script : Script) : Agrees s status script := by
  have seen := view_created flag held
  have other : flagCreated ≠ flagUninit ∧ flagCreated ≠ flagDropped := by decide
  unfold Agrees
  cases status with
  | poll =>
    have made : handleTask s .poll script = pollTask s script := by
      simp [handleTask, flag, other]
    rw [made, seen]
    exact pollTask_stages flag held 3
  | restartTask =>
    let gone := dropInPlace { s with flag := flagUninit } script.dropPanics
    have blank : view gone = .uninit := (view_dropInPlace held _ _).trans (view_uninit rfl)
    have same : gone.created = s.created := dropInPlace_created _ _
    cases panics : script.dropPanics with
    | true =>
      have made : handleTask s .restartTask script = (gone, .panicked) := by
        simp [handleTask, dropAnyways, flag, panics, gone]
      rw [made, seen, blank]
      simp [St.handleTask, runStages, stageStep, panics]
    | false =>
      have made : handleTask s .restartTask script = create gone script := by
        simp [handleTask, dropAnyways, flag, panics, gone]
      have next : runStages .restartTask script s.created 5 (.uninit, .dropOld v) =
          runStages .restartTask script gone.created 4 (.uninit, .init) := by
        rw [runStages, same]
        simp [stageStep, panics, afterDrop]
      rw [made, seen]
      exact next.trans (create_stages blank 1)
  | cancelTask =>
    let gone := dropInPlace { s with flag := flagDropped } script.dropPanics
    have blank : view gone = .dropped := (view_dropInPlace held _ _).trans (view_dropped rfl)
    have made : handleTask s .cancelTask script =
        (gone, if script.dropPanics then .panicked else .ready) := by
      cases panics : script.dropPanics <;> simp [handleTask, dropAnyways, flag, panics, gone]
    rw [made, seen, blank]
    exact dropping_stages rfl 3
  | uninitTask =>
    let gone := dropInPlace { s with flag := flagUninit } script.dropPanics
    have blank : view gone = .uninit := (view_dropInPlace held _ _).trans (view_uninit rfl)
    have made : handleTask s .uninitTask script =
        (gone, if script.dropPanics then .panicked else .ready) := by
      cases panics : script.dropPanics <;> simp [handleTask, dropAnyways, flag, panics, gone]
    rw [made, seen, blank]
    exact dropping_stages rfl 3

/-- The stages of a call agree with the flag byte and the memory behind it. -/
theorem handleTask_stages (inv : Tidy s) (status : Status) (script : Script) :
    runStages status script s.created 5 (St.handleTask (view s) status) =
      some (view (handleTask s status script).1, (handleTask s status script).2) := by
  rcases inv.kept.byte with flag | flag | flag
  · exact uninit_agrees flag status script
  · obtain ⟨v, held⟩ := inv.kept.held flag
    exact created_agrees flag held status script
  · exact dropped_agrees flag status script

end Stages

/-- Any calls on the storage of one task, with panics in any of the user code. -/
theorem life_cycle (cs : List (Status × Script)) :
    Lawful (calls new cs).acts ∧
    (∀ v, (calls new cs).acts.count (.dropBegin v) ≤ 1) ∧
    ((calls new cs).flag = flagCreated ↔
      ∃ v, (calls new cs).task = some v ∧ Alive (calls new cs).acts v) ∧
    (∀ script v, ¬ Alive (handleTask (calls new cs) .cancelTask script).1.acts v) ∧
    (∀ script v, ¬ Alive (handleTask (calls new cs) .uninitTask script).1.acts v) := by
  have inv : Tidy (calls new cs) := calls_tidy new_tidy cs
  refine ⟨inv.kept.lawful, inv.kept.lawful.drop_once, ?_, ?_, ?_⟩
  · constructor
    · intro live
      obtain ⟨v, held⟩ := inv.kept.held live
      exact ⟨v, held, (inv.kept.alive v).mpr ⟨live, held⟩⟩
    · rintro ⟨v, -, alive⟩
      exact ((inv.kept.alive v).mp alive).1
  · exact fun script => handleTask_empties inv (.inl rfl) script
  · exact fun script => handleTask_empties inv (.inr rfl) script

/-- The destructor of the first future unwinds out of a restart, the next poll starts anew. -/
example : (calls new [(.poll, ⟨false, false, .pending, false⟩),
    (.restartTask, ⟨true, false, .pending, false⟩), (.poll, ⟨false, false, .panic, false⟩)]).acts =
    [.init 0, .store 0, .pollBegin 0, .pollPending 0, .dropBegin 0, .dropPanic 0,
      .init 1, .store 1, .pollBegin 1, .pollPanic 1] := by decide

end Juggle.St.LifeCycle
