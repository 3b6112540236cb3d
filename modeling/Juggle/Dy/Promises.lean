import Juggle.Dy.Roster

/-! What follows from the acts of a roster alone, for every path: the promises made to
those who hold a handle. Each is a statement about what is shown, not about states. -/
namespace Juggle.Dy
open Juggle.Traces

namespace Roster

/-- The effect of an act on the member at one key. -/
inductive Fate (m : Roster) (l : Act) (n : Roster) (k : TaskKey) : Prop where
  | same (eq : n.tasks k = m.tasks k)
  | enter (params : SpawnParams) (label : l = .call (.register params) (.key (some k)))
      (free : m.tasks k = none) (eq : n.tasks k = some (Member.new m.nextTid params))
      (tids : n.nextTid = m.nextTid + 1)
  | moved (c : Call) (f : StopReason → Option StopReason) (e : Member) (r : StopReason)
      (request : c.request = some (k, f)) (label : l = .call c (.flag true))
      (found : m.tasks k = some e) (allowed : f e.stopReason = some r)
      (eq : n.tasks k = some { e with stopReason := r })
  | woken (e : Member) (label : l = .wake ⟨k, e.tid⟩) (found : m.tasks k = some e)
      (eq : n.tasks k = some { e with runnable := true })
  | picked (e : Member) (label : l = .pick ⟨k, e.tid⟩) (found : m.tasks k = some e)
      (allowed : e.stopReason = .none) (eq : n.tasks k = some { e with runnable := false })
  | retired (e : Member) (label : l = .retire ⟨k, e.tid⟩) (found : m.tasks k = some e)
      (eq : n.tasks k = none)

theorem set_tasks (m : Roster) (j k : TaskKey) (e : Option Member) :
    (m.set j e).tasks k = if k = j then e else m.tasks k := by
  simp [set, Function.update_apply]

theorem ask_some {m : Roster} {k : TaskKey} {f : StopReason → Option StopReason} {e : Member}
    (asked : m.ask k f = some e) :
    ∃ old r, m.tasks k = some old ∧ f old.stopReason = some r ∧ e = { old with stopReason := r } := by
  simp only [ask, Option.bind_eq_some_iff, Option.map_eq_some_iff] at asked
  obtain ⟨old, found, r, allowed, rfl⟩ := asked
  exact ⟨old, r, found, allowed, rfl⟩

theorem Answers.fate {m n : Roster} {c : Call} {a : Answer} (answers : m.Answers c a n)
    (k : TaskKey) : Fate m (.call c a) n k := by
  cases answers with
  | register params j free =>
    by_cases here : k = j
    · subst here
      exact .enter params rfl free (by simp [set_tasks]) rfl
    · exact .same (by simp [set_tasks, here])
  | granted c j f e request asked =>
    obtain ⟨old, r, found, allowed, rfl⟩ := ask_some asked
    by_cases here : k = j
    · subst here
      exact .moved c f old r request rfl found allowed (by simp [set_tasks])
    · exact .same (by simp [set_tasks, here])
  | _ => exact .same rfl

theorem Next.fate {strict : Prop} {m n : Roster} {l : Act} (next : Next strict m l n)
    (k : TaskKey) : Fate m l n k := by
  cases next with
  | call answers => exact answers.fate k
  | wake task =>
    unfold Roster.wake
    split
    · rename_i e found
      split
      · rename_i identity
        by_cases here : k = task.key
        · subst here
          exact .woken e (by rw [identity]) found (by simp [set_tasks])
        · exact .same (by simp [set_tasks, here])
      · exact .same rfl
    · exact .same rfl
  | pick task e idle calm found allowed ready =>
    by_cases here : k = task.key
    · subst here
      exact .picked e (by rw [found.2]) found.1 allowed (by simp [set_tasks])
    · exact .same (by simp [set_tasks, here])
  | retire task e idle leaving found =>
    by_cases here : k = task.key
    · subst here
      exact .retired e (by rw [found.2]) found.1 (by simp [set_tasks])
    · exact .same (by simp [set_tasks, here])
  | _ => exact .same rfl

theorem Next.nextTid_le {strict : Prop} {m n : Roster} {l : Act} (next : Next strict m l n) :
    m.nextTid ≤ n.nextTid := by
  cases next with
  | call answers =>
    cases answers with
    | register params k free => exact Nat.le_succ m.nextTid
    | _ => exact Nat.le_refl m.nextTid
  | wake task =>
    unfold Roster.wake
    split
    · split <;> exact Nat.le_refl m.nextTid
    · exact Nat.le_refl m.nextTid
  | _ => exact Nat.le_refl m.nextTid

/-- A member was there before with the same identity, or it has just been registered. -/
theorem Fate.origin {m n : Roster} {l : Act} {k : TaskKey} {e' : Member} (fate : Fate m l n k)
    (found : n.tasks k = some e') :
    (∃ e, m.tasks k = some e ∧ e.tid = e'.tid) ∨ (m.tasks k = none ∧ e'.tid = m.nextTid ∧
      n.nextTid = m.nextTid + 1 ∧ l.registers k) := by
  cases fate with
  | same eq => exact Or.inl ⟨e', eq ▸ found, rfl⟩
  | enter params label free eq tids =>
    rw [eq] at found
    cases found
    exact Or.inr ⟨free, rfl, tids, params, label⟩
  | moved c f e r request label hold allowed eq =>
    rw [eq] at found
    cases found
    exact Or.inl ⟨e, hold, rfl⟩
  | woken e label hold eq =>
    rw [eq] at found
    cases found
    exact Or.inl ⟨e, hold, rfl⟩
  | picked e label hold allowed eq =>
    rw [eq] at found
    cases found
    exact Or.inl ⟨e, hold, rfl⟩
  | retired e label hold eq =>
    rw [eq] at found
    cases found

/-- Only its retirement takes a member away. -/
theorem Fate.stays {m n : Roster} {l : Act} {k : TaskKey} {e : Member} (fate : Fate m l n k)
    (found : m.tasks k = some e) (kept : l ≠ .retire ⟨k, e.tid⟩) :
    ∃ e', n.tasks k = some e' ∧ e'.tid = e.tid ∧ e'.name = e.name := by
  cases fate with
  | same eq => exact ⟨e, eq.trans found, rfl, rfl⟩
  | enter params label free eq =>
    rw [free] at found
    cases found
  | moved c f old r request label hold allowed eq =>
    rw [hold] at found
    cases found
    exact ⟨_, eq, rfl, rfl⟩
  | woken old label hold eq =>
    rw [hold] at found
    cases found
    exact ⟨_, eq, rfl, rfl⟩
  | picked old label hold allowed eq =>
    rw [hold] at found
    cases found
    exact ⟨_, eq, rfl, rfl⟩
  | retired old label hold eq =>
    rw [hold] at found
    cases found
    exact absurd label kept

/-- Only a granted request changes the stop reason of a member that stays. -/
theorem Fate.reason {m n : Roster} {l : Act} {k : TaskKey} {e : Member} (fate : Fate m l n k)
    (found : m.tasks k = some e) :
    (∃ e', n.tasks k = some e' ∧ e'.stopReason = e.stopReason) ∨
    (∃ c f r, c.request = some (k, f) ∧ l = .call c (.flag true) ∧ f e.stopReason = some r ∧
      n.tasks k = some { e with stopReason := r }) ∨ l.retires k := by
  cases fate with
  | same eq => exact Or.inl ⟨e, eq.trans found, rfl⟩
  | enter params label free =>
    rw [free] at found
    cases found
  | moved c f old r request label hold allowed eq =>
    rw [hold] at found
    cases found
    exact Or.inr (Or.inl ⟨c, f, r, request, label, allowed, eq⟩)
  | woken old label hold eq =>
    rw [hold] at found
    cases found
    exact Or.inl ⟨_, eq, rfl⟩
  | picked old label hold allowed eq =>
    rw [hold] at found
    cases found
    exact Or.inl ⟨_, eq, rfl⟩
  | retired old label => exact Or.inr (Or.inr ⟨_, label⟩)

/-- Identities are shared neither in space nor in time, and what is polled or leaves is
there. -/
structure Valid (m : Roster) : Prop where
  old : ∀ k e, m.tasks k = some e → e.tid < m.nextTid
  unique : ∀ j k e e', m.tasks j = some e → m.tasks k = some e' → e.tid = e'.tid → j = k
  polled : ∀ task, m.polled = some task → ∃ e, m.Holds task e
  leaving : ∀ task, m.leaving = some task → ∃ e, m.Holds task e

theorem empty_valid : Valid empty where
  old := by simp [empty]
  unique := by simp [empty]
  polled := by simp [empty]
  leaving := by simp [empty]

theorem Answers.desk {m n : Roster} {c : Call} {a : Answer} (answers : m.Answers c a n) :
    n.polled = m.polled ∧ n.leaving = m.leaving := by
  cases answers <;> exact ⟨rfl, rfl⟩

theorem wake_desk (m : Roster) (task : TaskRef) :
    (m.wake task).polled = m.polled ∧ (m.wake task).leaving = m.leaving := by
  unfold wake
  split
  · split <;> exact ⟨rfl, rfl⟩
  · exact ⟨rfl, rfl⟩

section Step
variable {strict : Prop} {m n : Roster} {l : Act}

theorem Holds.step {task : TaskRef} {e : Member} (held : m.Holds task e)
    (next : Next strict m l n) (kept : l ≠ .retire task) : ∃ e', n.Holds task e' := by
  obtain ⟨e', found, identity, _⟩ :=
    (next.fate task.key).stays held.1 (by rw [held.2]; exact kept)
  exact ⟨e', found, identity.trans held.2⟩

theorem polled_step (valid : Valid m) (next : Next strict m l n) (task : TaskRef)
    (busy : n.polled = some task) : ∃ e, n.Holds task e := by
  have held : l ≠ .retire task → m.polled = some task → ∃ e, n.Holds task e := by
    intro kept before
    obtain ⟨e, held⟩ := valid.polled task before
    exact held.step next kept
  cases next with
  | call answers => exact held nofun (answers.desk.1.symm.trans busy)
  | wake other => exact held nofun ((wake_desk m other).1.symm.trans busy)
  | pick other e idle calm found allowed ready =>
    cases busy
    exact ⟨{ e with runnable := false }, by simp [set_tasks], found.2⟩
  | pause other => cases busy
  | finish other => cases busy
  | condemn other e idle => exact held nofun busy
  | retire other e idle => exact absurd (idle.symm.trans busy) nofun

theorem leaving_step (valid : Valid m) (next : Next strict m l n) (task : TaskRef)
    (leaves : n.leaving = some task) : ∃ e, n.Holds task e := by
  have held : l ≠ .retire task → m.leaving = some task → ∃ e, n.Holds task e := by
    intro kept before
    obtain ⟨e, held⟩ := valid.leaving task before
    exact held.step next kept
  cases next with
  | call answers => exact held nofun (answers.desk.2.symm.trans leaves)
  | wake other => exact held nofun ((wake_desk m other).2.symm.trans leaves)
  | pick other e idle calm => exact held nofun leaves
  | pause other => exact held nofun leaves
  | finish other busy calm =>
    cases leaves
    exact valid.polled task busy
  | condemn other e idle calm found cancelled =>
    cases leaves
    exact ⟨e, found⟩
  | retire other => cases leaves

theorem old_step (valid : Valid m) (next : Next strict m l n) (k : TaskKey) (e' : Member)
    (found : n.tasks k = some e') : e'.tid < n.nextTid := by
  rcases (next.fate k).origin found with ⟨e, hold, identity⟩ | ⟨_, identity, tids, _⟩
  · have small := valid.old k e hold
    exact identity ▸ Nat.lt_of_lt_of_le small next.nextTid_le
  · rw [identity, tids]
    exact Nat.lt_succ_self m.nextTid

theorem unique_step (valid : Valid m) (next : Next strict m l n) (j k : TaskKey) (e e' : Member)
    (hj : n.tasks j = some e) (hk : n.tasks k = some e') (same : e.tid = e'.tid) : j = k := by
  rcases (next.fate j).origin hj with ⟨u, hu, tu⟩ | ⟨_, tu, _, entered⟩
  · rcases (next.fate k).origin hk with ⟨v, hv, tv⟩ | ⟨_, tv, _, _⟩
    · exact valid.unique j k u v hu hv (by rw [tu, tv, same])
    · have small := valid.old j u hu
      rw [tu, same, tv] at small
      exact absurd small (Nat.lt_irrefl _)
  · rcases (next.fate k).origin hk with ⟨v, hv, tv⟩ | ⟨_, _, _, entered'⟩
    · have small := valid.old k v hv
      rw [tv, ← same, tu] at small
      exact absurd small (Nat.lt_irrefl _)
    · obtain ⟨params, label⟩ := entered
      obtain ⟨params', label'⟩ := entered'
      cases label.symm.trans label'
      rfl

theorem Valid.step (valid : Valid m) (next : Next strict m l n) : Valid n where
  old := old_step valid next
  unique := unique_step valid next
  polled := polled_step valid next
  leaving := leaving_step valid next

/-! What an act needs. -/

theorem Next.pick_needs {task : TaskRef} (next : Next strict m (.pick task) n) :
    ∃ e, m.Holds task e ∧ e.stopReason = .none ∧ (strict → e.runnable = true) := by
  cases next with
  | pick _ e idle calm found allowed ready => exact ⟨e, found, allowed, ready⟩

theorem Next.grant_needs {c : Call} {k : TaskKey} {f : StopReason → Option StopReason}
    (request : c.request = some (k, f)) (next : Next strict m (.call c (.flag true)) n) :
    ∃ e r, m.tasks k = some e ∧ f e.stopReason = some r ∧
      n.tasks k = some { e with stopReason := r } := by
  cases next with
  | call answers =>
    cases answers with
    | granted _ j g e request' asked =>
      rw [request] at request'
      cases request'
      obtain ⟨old, r, found, allowed, rfl⟩ := ask_some asked
      exact ⟨old, r, found, allowed, by simp [set_tasks]⟩

theorem Next.state_told {k : TaskKey} {st : State}
    (next : Next strict m (.call (.getState k) (.state st)) n) : st = m.state k := by
  cases next with
  | call answers =>
    cases answers
    rfl

theorem Next.register_needs {k : TaskKey} {params : SpawnParams}
    (next : Next strict m (.call (.register params) (.key (some k))) n) :
    m.tasks k = none ∧ n.tasks k = some (Member.new m.nextTid params) := by
  cases next with
  | call answers =>
    cases answers with
    | register _ _ free => exact ⟨free, by simp [set_tasks]⟩

end Step
end Roster

/-! The promises. -/

/-- A granted cancellation is final: until the task is removed no poll of it begins, no
request on it is granted, and its state is reported as cancelled. -/
def CancelFinal (ls : List Act) : Prop :=
  ∀ k, After (fun l => l = .call (.cancel k) (.flag true))
    (fun l => ¬ l.picks k ∧ ¬ l.grants k ∧ ∀ st, l = .call (.getState k) (.state st) → st = .cancelled)
    (Act.retires k) ls

/-- A suspended task rests until it is resumed: no poll of it begins. -/
def SuspendHolds (ls : List Act) : Prop :=
  ∀ k, After
    (fun l => l = .call (.suspend k) (.flag true) ∨
      ∃ name, l = .call (.register ⟨true, name⟩) (.key (some k)))
    (fun l => ¬ l.picks k ∧
      ∀ st, l = .call (.getState k) (.state st) → st = .suspended ∨ st = .cancelled)
    (fun l => l = .call (.resume k) (.flag true) ∨ l.retires k) ls

/-- A poll of a task is followed by another one only when the task was woken since. -/
def PollsPaid (ls : List Act) : Prop :=
  ∀ task, After (fun l => l = .pick task) (fun l => l ≠ .pick task) (fun l => l = .wake task) ls

/-- While a task is polled the scheduler acts on no other one, and removes none. -/
def PollsAlone (ls : List Act) : Prop :=
  ∀ task, After (fun l => l = .pick task)
    (fun l => ∀ other, l.subject = some other → l = .pause task ∨ l = .finish task)
    (fun l => l = .pause task ∨ l = .finish task) ls

/-- A task is removed only after it was ready or its cancellation was granted. -/
def RemovedForCause (ls : List Act) : Prop :=
  ∀ k, After (Act.registers k) (fun l => ¬ l.retires k)
    (fun l => l = .call (.cancel k) (.flag true) ∨ l.finishes k) ls

/-- A key is not given away again before its task is removed. -/
def KeysHeld (ls : List Act) : Prop :=
  ∀ k, After (Act.registers k) (fun l => ¬ l.registers k) (Act.retires k) ls

/-- The scheduler never comes back to a task it has removed. -/
def RemovedForGood (ls : List Act) : Prop :=
  ∀ task, After (fun l => l = .retire task)
    (fun l => ∀ other, l.subject = some other → other.tid ≠ task.tid) (fun _ => False) ls

/-- A task found by its name is the one with the least key. -/
def NamesFound (ls : List Act) : Prop :=
  ∀ k name, After
    (fun l => ∃ params, params.name.asStr = some name ∧
      l = .call (.register params) (.key (some k)))
    (fun l => ∀ a, l = .call (.getByName name) a → ∃ j, a = .key (some j) ∧ j ≤ k)
    (Act.retires k) ls

/-- The count is that of the tasks registered and not yet removed. -/
def CountRight (ls : List Act) : Prop :=
  ∀ pre n post, ls = pre ++ .call .registeredCount (.count n) :: post →
    n + pre.countP Act.isRetire = pre.countP Act.isRegister

namespace Roster
variable {strict : Prop} {ls : List Act} {t : Roster}

theorem reach_valid (path : Path (Next strict) empty ls t) : Valid t :=
  path.invariant (I := Valid) (fun _ _ _ => Valid.step) empty_valid

theorem cancel_final (path : Path (Next strict) empty ls t) : CancelFinal ls := by
  intro k
  refine path.after (I := fun m => ∃ e, m.tasks k = some e ∧ e.stopReason = .cancelled)
    (J := fun _ => True) (fun _ _ _ _ _ => trivial) ?_ ?_ trivial
  · rintro m l n - next rfl
    obtain ⟨e, r, found, allowed, after⟩ := next.grant_needs rfl
    refine ⟨_, after, ?_⟩
    cases hr : e.stopReason <;> rw [hr] at allowed <;> cases allowed <;> rfl
  · rintro m l n - ⟨e, found, cancelled⟩ next
    refine ⟨⟨?_, ?_, ?_⟩, ?_⟩
    · rintro ⟨tid, rfl⟩
      obtain ⟨e', held, allowed, _⟩ := next.pick_needs
      cases found.symm.trans held.1
      rw [cancelled] at allowed
      cases allowed
    · rintro ⟨c, f, request, rfl⟩
      obtain ⟨e', r, found', allowed, _⟩ := next.grant_needs request
      cases found.symm.trans found'
      rw [cancelled] at allowed
      cases c <;> cases request <;> cases allowed
    · rintro st rfl
      rw [next.state_told]
      simp [state, found, Member.state, cancelled]
    · intro kept
      rcases (next.fate k).reason found with ⟨e', eq, same⟩ | ⟨c, f, r, request, _, allowed, _⟩ | gone
      · exact ⟨e', eq, same.trans cancelled⟩
      · rw [cancelled] at allowed
        cases c <;> cases request <;> cases allowed
      · exact absurd gone kept

/-- The requests that a task which is not running can be granted. -/
theorem request_stopped {c : Call} {k : TaskKey} {f : StopReason → Option StopReason}
    {old r : StopReason} (request : c.request = some (k, f)) (allowed : f old = some r)
    (stopped : old ≠ .none) : c = .resume k ∨ (c = .cancel k ∧ r = .cancelled) := by
  cases c with
  | resume key =>
    cases request
    exact Or.inl rfl
  | cancel key =>
    cases request
    cases old with
    | cancelled => cases allowed
    | _ =>
      cases allowed
      exact Or.inr ⟨rfl, rfl⟩
  | suspend key =>
    cases request
    cases old with
    | none => exact absurd rfl stopped
    | _ => cases allowed
  | _ => cases request

theorem suspend_holds (path : Path (Next strict) empty ls t) : SuspendHolds ls := by
  intro k
  refine path.after (I := fun m => ∃ e, m.tasks k = some e ∧ e.stopReason ≠ .none)
    (J := fun _ => True) (fun _ _ _ _ _ => trivial) ?_ ?_ trivial
  · rintro m l n - next (rfl | ⟨name, rfl⟩)
    · obtain ⟨e, r, found, allowed, after⟩ := next.grant_needs rfl
      refine ⟨_, after, ?_⟩
      cases hr : e.stopReason <;> rw [hr] at allowed <;> cases allowed
      exact nofun
    · exact ⟨_, next.register_needs.2, nofun⟩
  · rintro m l n - ⟨e, found, stopped⟩ next
    refine ⟨⟨?_, ?_⟩, ?_⟩
    · rintro ⟨tid, rfl⟩
      obtain ⟨e', held, allowed, _⟩ := next.pick_needs
      cases found.symm.trans held.1
      exact absurd allowed stopped
    · rintro st rfl
      rw [next.state_told]
      cases hr : e.stopReason with
      | none => exact absurd hr stopped
      | suspended => exact Or.inl (by simp [state, found, Member.state, hr])
      | cancelled => exact Or.inr (by simp [state, found, Member.state, hr])
    · intro kept
      rcases (next.fate k).reason found with ⟨e', eq, same⟩ | ⟨c, f, r, request, label, allowed, eq⟩ | gone
      · exact ⟨e', eq, same ▸ stopped⟩
      · rcases request_stopped request allowed stopped with rfl | ⟨rfl, rfl⟩
        · exact absurd (Or.inl label) kept
        · exact ⟨_, eq, nofun⟩
      · exact absurd (Or.inr gone) kept

/-- The task is no member, and no one will be it again. -/
structure Gone (m : Roster) (tid : Tid) : Prop where
  used : tid < m.nextTid
  absent : ∀ k e, m.tasks k = some e → e.tid ≠ tid

theorem Gone.step {m n : Roster} {l : Act} {tid : Tid} (gone : Gone m tid)
    (next : Next strict m l n) : Gone n tid where
  used := Nat.lt_of_lt_of_le gone.used next.nextTid_le
  absent := by
    intro k e' found
    rcases (next.fate k).origin found with ⟨e, hold, identity⟩ | ⟨_, identity, _⟩
    · exact identity ▸ gone.absent k e hold
    · rw [identity]
      exact Nat.ne_of_gt gone.used

theorem retire_gone {m n : Roster} {task : TaskRef} (valid : Valid m)
    (next : Next strict m (.retire task) n) :
    Gone n task.tid ∧ n.polled = none ∧ n.leaving = none := by
  cases next with
  | retire _ e idle leaving held =>
    refine ⟨⟨?_, ?_⟩, idle, rfl⟩
    · exact held.2 ▸ valid.old _ e held.1
    · intro k e' found same
      by_cases here : k = task.key
      · simp [set_tasks, here] at found
      · simp only [set_tasks, here, if_false] at found
        exact here (valid.unique k task.key e' e found held.1 (same.trans held.2.symm))

theorem polls_paid (strictly : strict) (path : Path (Next strict) empty ls t) : PollsPaid ls := by
  intro task
  refine path.after
    (I := fun m => Gone m task.tid ∨ ∃ e, m.Holds task e ∧ e.runnable = false)
    (J := Valid) (fun _ _ _ => Valid.step) ?_ ?_ empty_valid
  · rintro m l n valid next rfl
    cases next with
    | pick _ e idle calm held =>
      exact Or.inr ⟨{ e with runnable := false }, ⟨by simp [set_tasks], held.2⟩, rfl⟩
  · rintro m l n valid (gone | ⟨e, held, asleep⟩) next
    · refine ⟨?_, fun _ => Or.inl (gone.step next)⟩
      rintro rfl
      obtain ⟨e, held, _⟩ := next.pick_needs
      exact gone.absent task.key e held.1 held.2
    · refine ⟨?_, ?_⟩
      · rintro rfl
        obtain ⟨e', held', _, ready⟩ := next.pick_needs
        cases held.1.symm.trans held'.1
        rw [ready strictly] at asleep
        cases asleep
      · intro unwoken
        have here : TaskRef.mk task.key e.tid = task := by rw [held.2]
        cases next.fate task.key with
        | same eq => exact Or.inr ⟨e, ⟨eq.trans held.1, held.2⟩, asleep⟩
        | enter params label free => cases free.symm.trans held.1
        | moved c f old r request label hold allowed eq =>
          cases hold.symm.trans held.1
          exact Or.inr ⟨_, ⟨eq, held.2⟩, asleep⟩
        | woken old label hold =>
          cases hold.symm.trans held.1
          exact absurd (label.trans (congrArg Act.wake here)) unwoken
        | picked old label hold allowed eq =>
          cases hold.symm.trans held.1
          exact Or.inr ⟨_, ⟨eq, held.2⟩, rfl⟩
        | retired old label hold =>
          cases hold.symm.trans held.1
          subst label
          rw [here] at next
          exact Or.inl (retire_gone valid next).1

theorem polls_alone (path : Path (Next strict) empty ls t) : PollsAlone ls := by
  intro task
  refine path.after (I := fun m => m.polled = some task) (J := fun _ => True)
    (fun _ _ _ _ _ => trivial) ?_ ?_ trivial
  · rintro m l n - next rfl
    cases next
    rfl
  · rintro m l n - busy next
    cases next with
    | call answers => exact ⟨nofun, fun _ => answers.desk.1.trans busy⟩
    | wake other => exact ⟨nofun, fun _ => (wake_desk m other).1.trans busy⟩
    | pick other e idle => cases idle.symm.trans busy
    | pause other busy' =>
      cases busy.symm.trans busy'
      exact ⟨fun _ _ => Or.inl rfl, fun open_ => absurd (Or.inl rfl) open_⟩
    | finish other busy' =>
      cases busy.symm.trans busy'
      exact ⟨fun _ _ => Or.inr rfl, fun open_ => absurd (Or.inr rfl) open_⟩
    | condemn other e idle => cases idle.symm.trans busy
    | retire other e idle => cases idle.symm.trans busy

theorem removed_for_cause (path : Path (Next strict) empty ls t) : RemovedForCause ls := by
  intro k
  refine path.after
    (I := fun m => (∃ e, m.tasks k = some e ∧ e.stopReason ≠ .cancelled) ∧
      ∀ task, m.leaving = some task → task.key ≠ k)
    (J := Valid) (fun _ _ _ => Valid.step) ?_ ?_ empty_valid
  · rintro m l n valid next ⟨params, rfl⟩
    obtain ⟨free, found⟩ := next.register_needs
    refine ⟨⟨_, found, ?_⟩, ?_⟩
    · simp only [Member.new]
      split <;> exact nofun
    · rintro task leaves rfl
      cases next with
      | call answers =>
        obtain ⟨e, held⟩ := valid.leaving task (answers.desk.2.symm.trans leaves)
        cases free.symm.trans held.1
  · rintro m l n valid ⟨⟨e, found, live⟩, elsewhere⟩ next
    refine ⟨?_, fun uncaused => ⟨?_, ?_⟩⟩
    · rintro ⟨tid, rfl⟩
      cases next with
      | retire _ _ idle leaving => exact elsewhere ⟨k, tid⟩ leaving rfl
    · rcases (next.fate k).reason found with ⟨e', eq, same⟩ | ⟨c, f, r, request, label, allowed, eq⟩ | ⟨tid, rfl⟩
      · exact ⟨e', eq, same ▸ live⟩
      · refine ⟨_, eq, ?_⟩
        rintro rfl
        refine uncaused (Or.inl ?_)
        rw [label]
        cases c <;> cases request <;> first | rfl | (cases hr : e.stopReason <;> rw [hr] at allowed <;> cases allowed)
      · cases next with
        | retire _ _ idle leaving => exact absurd rfl (elsewhere ⟨k, tid⟩ leaving)
    · intro task leaves
      cases next with
      | call answers => exact elsewhere task (answers.desk.2.symm.trans leaves)
      | wake other => exact elsewhere task ((wake_desk m other).2.symm.trans leaves)
      | pick other e idle calm => exact elsewhere task leaves
      | pause other => exact elsewhere task leaves
      | finish other =>
        cases leaves
        rintro rfl
        exact uncaused (Or.inr ⟨task.tid, rfl⟩)
      | condemn other e' idle calm held cancelled =>
        cases leaves
        rintro rfl
        cases found.symm.trans held.1
        exact live cancelled
      | retire other => cases leaves

theorem keys_held (path : Path (Next strict) empty ls t) : KeysHeld ls := by
  intro k
  refine path.after (I := fun m => ∃ e, m.tasks k = some e) (J := fun _ => True)
    (fun _ _ _ _ _ => trivial) ?_ ?_ trivial
  · rintro m l n - next ⟨params, rfl⟩
    exact ⟨_, next.register_needs.2⟩
  · rintro m l n - ⟨e, found⟩ next
    refine ⟨?_, fun kept => ?_⟩
    · rintro ⟨params, rfl⟩
      cases found.symm.trans next.register_needs.1
    · obtain ⟨e', eq, _⟩ := (next.fate k).stays found (fun label => kept ⟨_, label⟩)
      exact ⟨e', eq⟩

theorem removed_for_good (path : Path (Next strict) empty ls t) : RemovedForGood ls := by
  intro task
  refine path.after
    (I := fun m => Gone m task.tid ∧ (∀ r, m.polled = some r → r.tid ≠ task.tid) ∧
      ∀ r, m.leaving = some r → r.tid ≠ task.tid)
    (J := Valid) (fun _ _ _ => Valid.step) ?_ ?_ empty_valid
  · rintro m l n valid next rfl
    obtain ⟨gone, idle, calm⟩ := retire_gone valid next
    exact ⟨gone, by simp [idle], by simp [calm]⟩
  · rintro m l n valid ⟨gone, unpolled, unleaving⟩ next
    have later := gone.step next
    have other : ∀ (r : TaskRef) (e : Member), m.Holds r e → r.tid ≠ task.tid :=
      fun r e held same => gone.absent r.key e held.1 (held.2.trans same)
    cases next with
    | call answers =>
      exact ⟨nofun, fun _ => ⟨later, answers.desk.1 ▸ unpolled, answers.desk.2 ▸ unleaving⟩⟩
    | wake r =>
      exact ⟨nofun, fun _ => ⟨later, (wake_desk m r).1 ▸ unpolled, (wake_desk m r).2 ▸ unleaving⟩⟩
    | pick r e idle calm held =>
      refine ⟨by rintro _ ⟨⟩; exact other r e held, fun _ => ⟨later, ?_, unleaving⟩⟩
      rintro _ ⟨⟩
      exact other r e held
    | pause r busy =>
      exact ⟨by rintro _ ⟨⟩; exact unpolled r busy, fun _ => ⟨later, by simp, unleaving⟩⟩
    | finish r busy =>
      refine ⟨by rintro _ ⟨⟩; exact unpolled r busy, fun _ => ⟨later, by simp, ?_⟩⟩
      rintro _ ⟨⟩
      exact unpolled r busy
    | condemn r e idle calm held =>
      refine ⟨by rintro _ ⟨⟩; exact other r e held, fun _ => ⟨later, unpolled, ?_⟩⟩
      rintro _ ⟨⟩
      exact other r e held
    | retire r e idle leaving held =>
      exact ⟨by rintro _ ⟨⟩; exact other r e held, fun _ => ⟨later, unpolled, by simp⟩⟩

theorem names_found (path : Path (Next strict) empty ls t) : NamesFound ls := by
  intro k name
  refine path.after (I := fun m => m.Named name k) (J := fun _ => True)
    (fun _ _ _ _ _ => trivial) ?_ ?_ trivial
  · rintro m l n - next ⟨params, called, rfl⟩
    exact ⟨_, next.register_needs.2, called⟩
  · rintro m l n - ⟨e, found, called⟩ next
    refine ⟨?_, fun kept => ?_⟩
    · rintro a rfl
      cases next with
      | call answers =>
        cases answers with
        | granted _ _ _ _ request => cases request
        | refused _ _ _ request => cases request
        | named _ j _ first => exact ⟨j, rfl, first k ⟨e, found, called⟩⟩
        | unnamed _ nobody => exact absurd ⟨e, found, called⟩ (nobody k)
    · obtain ⟨e', eq, _, same⟩ := (next.fate k).stays found (fun label => kept ⟨_, label⟩)
      exact ⟨e', eq, same ▸ called⟩

theorem live_set_some {m : Roster} {k : TaskKey} {e : Member} (found : m.tasks k = some e)
    (e' : Member) : (m.set k (some e')).live = m.live := by
  ext j
  by_cases here : j = k <;> simp [live, set_tasks, here, found]

theorem live_enter {m : Roster} (k : TaskKey) (e : Member) :
    (m.set k (some e)).live = insert k m.live := by
  ext j
  by_cases here : j = k <;> simp [live, set_tasks, here]

theorem live_retire {m : Roster} (k : TaskKey) : (m.set k none).live = m.live \ {k} := by
  ext j
  by_cases here : j = k <;> simp [live, set_tasks, here]

theorem isRegister_flag (c : Call) (ok : Bool) : Act.isRegister (.call c (.flag ok)) = false := by
  cases c <;> rfl

/-- What one act does to the number of keys in use. -/
theorem live_step {m n : Roster} {l : Act} (finite : m.live.Finite) (next : Next strict m l n) :
    n.live.Finite ∧ n.live.ncard + (if Act.isRetire l then 1 else 0) =
      m.live.ncard + (if Act.isRegister l then 1 else 0) := by
  have quiet : n.live = m.live → Act.isRetire l = false → Act.isRegister l = false →
      n.live.Finite ∧ n.live.ncard + (if Act.isRetire l then 1 else 0) =
        m.live.ncard + (if Act.isRegister l then 1 else 0) :=
    fun same a b => ⟨same ▸ finite, by simp [same, a, b]⟩
  cases next with
  | call answers =>
    cases answers with
    | register params k free =>
      have grown : insert k m.live = live _ := (live_enter k (Member.new m.nextTid params)).symm
      refine ⟨grown ▸ finite.insert k, ?_⟩
      have absent : k ∉ m.live := by simp [live, free]
      have card := Set.ncard_insert_of_notMem absent finite
      rw [grown] at card
      exact card
    | granted c k f e request asked =>
      obtain ⟨old, r, found, _⟩ := ask_some asked
      exact quiet (live_set_some found e) rfl (isRegister_flag _ true)
    | refused => exact quiet rfl rfl (isRegister_flag _ false)
    | _ => exact quiet rfl rfl rfl
  | wake task =>
    refine quiet ?_ rfl rfl
    unfold Roster.wake
    split
    · rename_i e found
      split
      · exact live_set_some found _
      · rfl
    · rfl
  | pick task e idle calm found => exact quiet (live_set_some found.1 _) rfl rfl
  | retire task e idle leaving found =>
    have shrunk : m.live \ {task.key} = live _ := (live_retire task.key).symm
    refine ⟨shrunk ▸ finite.sdiff, ?_⟩
    have present : task.key ∈ m.live := by simp [live, found.1]
    have card := Set.ncard_sdiff_singleton_add_one present finite
    rw [shrunk] at card
    exact card
  | _ => exact quiet rfl rfl rfl

theorem count_right (path : Path (Next strict) empty ls t) : CountRight ls := by
  intro pre n post eq
  rw [eq] at path
  obtain ⟨m, before, later⟩ := path.split
  have start : empty.live = ∅ := by simp [live, empty]
  have card := before.balance (J := fun m => m.live.Finite) (fun m => m.live.ncard)
    (fun _ _ _ => live_step) (by simp [start])
  cases later with
  | cons told rest =>
    cases told with
    | call answers =>
      cases answers with
      | registeredCount => simpa [start] using card

end Roster
end Juggle.Dy
