import Juggle.St.Requests
import Juggle.Lib.Rounds

/-! The sweeps of `beat_once` are fair: no task is polled twice in one of them, and a task
that can be polled is polled before the next one but one. -/
namespace Juggle.St
open Juggle.Utils Juggle.Runs

namespace Caller

/-- The first task that the sweep will still look at after the call on the task. -/
def next (key : TaskKey) (c : Caller) : TaskKey := if c.restarts then key else key + 1

theorem le_next (key : TaskKey) (c : Caller) : key ≤ c.next key := by
  unfold next
  split
  · exact Nat.le_refl key
  · exact Nat.le_succ key

theorem next_le (key : TaskKey) (c : Caller) : c.next key ≤ key + 1 := by
  unfold next
  split
  · exact Nat.le_succ key
  · exact Nat.le_refl _

end Caller

namespace Pc

/-- The first task that the sweep in progress will still look at. -/
def next : Pc → Option TaskKey
  | .sweep _ key => some key
  | .check _ key => some key
  | .chosen _ key _ => some key
  | .inTask c key _ => some (c.next key)
  | .back c key _ => some (c.next key)
  | _ => none

theorem atStage_next (c : Caller) (key : TaskKey) (stage : Stage) :
    (atStage c key stage).next = some (c.next key) := by
  cases stage <;> rfl

end Pc

namespace Wheel

/-- A call of `beat_once` starts to go through the registry. -/
def sweeps (s : Wheel) : Event → Bool
  | .run =>
    match s.pc with
    | .clear => true
    | .register => true
    | .sweep b key => (s.get key).isNone && !b.second && b.anyPoll
    | _ => false
  | _ => false

/-- The sweep in progress has still to look at the task. -/
def Coming (k : TaskKey) (s : Wheel) : Prop := ∃ n, s.pc.next = some n ∧ n ≤ k

/-- The task can be polled, or has a restart pending. -/
def Waits (k : TaskKey) (s : Wheel) : Prop :=
  ∃ t, s.get k = some t ∧
    ((t.stopReason = .none ∧ t.runnable = true) ∨ t.stopReason = .restart)

instance (k : TaskKey) (s : Wheel) : Decidable (Waits k s) :=
  decidable_of_iff ((s.get k).any (fun t =>
      decide ((t.stopReason = .none ∧ t.runnable = true) ∨ t.stopReason = .restart)) = true)
    (by simp [Waits, Option.any_eq_true])

/-- The task is to be polled. A restart in progress has taken the request away. -/
def Wants (k : TaskKey) (s : Wheel) : Prop := Waits k s ∨ s.pc.restarting = some k

instance (k : TaskKey) (s : Wheel) : Decidable (Wants k s) := inferInstanceAs (Decidable (_ ∨ _))

def panics : Event → Bool
  | .panic => true
  | _ => false

/-- A poll of the task that returned Ready ends. -/
def ends (k : TaskKey) (s : Wheel) : Event → Bool
  | .run =>
    match s.pc with
    | .back (.pollLocal _ _) key true => key == k
    | _ => false
  | _ => false

/-- The session goes on without a panic, and the task is neither suspended nor cancelled
nor finishes. -/
def keepsWork (k : TaskKey) (s : Wheel) (e : Event) : Prop :=
  continues e = true ∧ panics e = false ∧ s.succeeds e ≠ some (.suspend k) ∧
    s.succeeds e ≠ some (.cancel k) ∧ ends k s e = false

instance (k : TaskKey) (s : Wheel) (e : Event) : Decidable (keepsWork k s e) :=
  inferInstanceAs (Decidable (_ ∧ _))

/-- How the sweeps look to one task. -/
def customer (k : TaskKey) : Customer Wheel Event where
  serve := startsPoll k
  near := Coming k
  wants := Wants k

/-! The runnable flag of a task is lowered by `poll_local` only. -/

def Raised (s s' : Wheel) (k : TaskKey) : Prop :=
  (s.get k).any StaticFuture.runnable = true → (s'.get k).any StaticFuture.runnable = true

theorem raised_of_registry {s s' : Wheel} (k : TaskKey) (same : s'.alg.registry = s.alg.registry) :
    Raised s s' k := by
  unfold Raised get StaticAlgorithm.get
  rw [same]
  exact id

theorem raised_of_modify {s s' : Wheel} (k key : TaskKey) {f : StaticFuture → StaticFuture}
    (same : s'.alg.registry = s.alg.registry.modify key f)
    (keeps : key = k → ∀ t, t.runnable = true → (f t).runnable = true) : Raised s s' k := by
  intro raised
  obtain ⟨t, found, runnable⟩ := (Option.any_eq_true _ _).mp raised
  refine (Option.any_eq_true _ _).mpr ?_
  unfold get StaticAlgorithm.get at found ⊢
  rw [same, List.getElem?_modify, found]
  by_cases here : key = k
  · exact ⟨f t, by simp [here], keeps here t runnable⟩
  · exact ⟨t, by simp [here], runnable⟩

theorem Raised.trans {s r s' : Wheel} {k : TaskKey} (first : Raised s r k) (second : Raised r s' k) :
    Raised s s' k := fun raised => second (first raised)

theorem perform_raised (s : Wheel) (c : Call) (k : TaskKey) : Raised s (s.perform c) k := by
  cases c with
  | resume key =>
    rcases resume_cases s.alg key with no | ⟨task, found, held, yes⟩
    · exact raised_of_registry k (by simp only [perform, no])
    · refine raised_of_modify k key (f := StaticFuture.setStopReason .none) ?_
        (fun _ t runnable => runnable)
      simp only [perform, yes]
      rfl
  | suspend key =>
    rcases suspend_cases s.alg key with no | ⟨task, r, found, free, yes⟩
    · exact raised_of_registry k (by simp only [perform, no])
    · refine raised_of_modify k key (f := StaticFuture.setStopReason r) ?_
        (fun _ t runnable => runnable)
      simp only [perform, yes]
      rfl
  | restart key =>
    rcases restart_cases s.alg key with no | ⟨_, _, _, no⟩ | ⟨task, found, fresh, yes⟩
    · exact raised_of_registry k (by simp only [perform, no])
    · exact raised_of_registry k (by simp only [perform, no])
    · refine raised_of_modify k key
        (f := fun t => (t.setStopReason .restart).setEnded false) ?_ (fun _ t runnable => runnable)
      simp only [perform, yes, StaticAlgorithm.update, restartCounts_registry]
  | cancel key =>
    rcases cancel_cases s.alg key with no | ⟨task, found, live, yes⟩
    · exact raised_of_registry k (by simp only [perform, no])
    · refine raised_of_modify k key (f := StaticFuture.setStopReason .cancelled) ?_
        (fun _ t runnable => runnable)
      simp only [perform, yes]
      split <;> rfl
  | _ => exact raised_of_registry k rfl

theorem atStage_raised (s : Wheel) (c : Caller) (key : TaskKey) (stage : Stage) (k : TaskKey) :
    Raised s (s.atStage c key stage) k := by
  cases stage with
  | leave isReady =>
    refine raised_of_modify k key (f := StaticFuture.setPolling false) ?_
      (fun _ t runnable => runnable)
    unfold atStage leave
    cases c <;> rfl
  | _ => exact raised_of_registry k rfl

theorem pollProtected_raised (s : Wheel) (c : Caller) (key k : TaskKey) :
    Raised s (s.pollProtected c key) k := by
  unfold pollProtected
  split
  · exact raised_of_registry k rfl
  · split
    · exact raised_of_registry k rfl
    · exact (raised_of_modify k key rfl (by intro _ t runnable; exact runnable)).trans
        (atStage_raised _ _ _ _ k)

theorem settle_raised (s : Wheel) (k : TaskKey) : Raised s s.settle k :=
  raised_of_registry k (by rw [settle_alg])

theorem notifyWake_raised (s : Wheel) (k : TaskKey) : Raised s s.notifyWake k := by
  refine raised_of_registry k ?_
  unfold notifyWake
  split <;> rfl

theorem storeRunnable_raised (s : Wheel) (target k : TaskKey) : Raised s (s.storeRunnable target) k :=
  raised_of_modify k target rfl (by intro _ _ _; rfl)

theorem visit_raised (s : Wheel) (b : Beat) (key : TaskKey) (task : StaticFuture) (k : TaskKey) :
    Raised s (s.visit b key task) k := by
  have arm : ∀ (c : Caller) (f : StaticFuture → StaticFuture), (∀ t, (f t).runnable = t.runnable) →
      Raised s ((s.update key f).pollProtected c key) k := fun c f same =>
    (raised_of_modify k key rfl (by intro _ t runnable; exact (same t).trans runnable)).trans
      (pollProtected_raised _ c key k)
  unfold visit
  cases task.stopReason with
  | none =>
    dsimp only
    split <;> exact raised_of_registry k rfl
  | cancelled => exact arm _ _ (fun _ => rfl)
  | restart => exact arm _ _ (fun _ => rfl)
  | restartSuspended => exact arm _ _ (fun _ => rfl)
  | finished => exact raised_of_registry k rfl
  | suspended => exact raised_of_registry k rfl

theorem pollLocal_raised (s : Wheel) (b : Beat) {key k : TaskKey} (restart : Bool)
    (other : key ≠ k) : Raised s (s.pollLocal b key restart) k :=
  have lowered : Raised s ((s.setCurrent (some key)).update key (StaticFuture.setRunnable false)) k :=
    raised_of_modify k key rfl (fun here => absurd here other)
  lowered.trans (pollProtected_raised _ _ key k)

theorem endBeat_raised (s : Wheel) (b : Beat) (k : TaskKey) : Raised s (s.endBeat b) k := by
  refine raised_of_registry k ?_
  unfold endBeat
  split
  · rfl
  · rfl
  · rfl
  · dsimp only
    split <;> rfl

theorem resume_raised (s : Wheel) (c : Caller) (key : TaskKey) (isReady : Bool) (k : TaskKey) :
    Raised s (s.resume c key isReady) k := by
  cases c with
  | cancelled b => exact raised_of_registry k rfl
  | pollLocal b restart =>
    cases isReady with
    | true => exact raised_of_modify k key rfl (by intro _ t runnable; exact runnable)
    | false => exact raised_of_registry k rfl
  | cleanup unwinding => exact raised_of_modify k key rfl (by intro _ t runnable; exact runnable)
  | _ => exact raised_of_modify k key rfl (by intro _ _ _; rfl)

theorem run_raised {s s' : Wheel} {k : TaskKey} (session : s.pc.inSession = true)
    (h : s.run = some s') (unpolled : startsPoll k s .run = false) : Raised s s' k := by
  unfold run at h
  split at h
  · cases h
    exact raised_of_registry k rfl
  · split at h
    · cases h
      exact visit_raised _ _ _ _ k
    · cases h
      exact endBeat_raised s _ k
  · split at h
    · cases h
      split <;> exact raised_of_registry k rfl
    · cases h
  · rename_i b key restart pc
    cases h
    exact pollLocal_raised s b restart (by simpa [startsPoll, pc] using unpolled)
  · cases h
    exact resume_raised s _ _ _ k
  · cases h
    exact raised_of_registry k rfl
  · cases h
    exact raised_of_registry k rfl
  · rename_i pc
    simp [pc, Pc.inSession] at session
  · rename_i pc
    simp [pc, Pc.inSession] at session
  · cases h

theorem wakeStep_raised {s s' : Wheel} {i : Nat} (k : TaskKey) (h : s.wakeStep i = some s') :
    Raised s s' k := by
  unfold wakeStep at h
  split at h
  · cases h
  · cases h
    exact raised_of_registry k rfl
  · cases h
    exact raised_of_registry k rfl
  · rename_i target _
    cases h
    exact storeRunnable_raised s target k

theorem panic_raised {s s' : Wheel} (k : TaskKey) (session : s.pc.inSession = true)
    (h : s.panic = some s') : Raised s s' k := by
  unfold panic at h
  split at h
  · rename_i c key stage pc
    split at h
    · have lowered : Raised s (s.update key (StaticFuture.setPolling false)) k :=
        raised_of_modify k key rfl (by intro _ t runnable; exact runnable)
      cases c with
      | cleanup unwinding => simp [pc, Pc.inSession, Caller.inSession] at session
      | init suspended => simp [pc, Pc.inSession, Caller.inSession] at session
      | _ =>
        cases h
        exact lowered.trans (raised_of_registry k rfl)
    · cases h
  · cases h

theorem step_raised {s s' : Wheel} {e : Event} {k : TaskKey} (session : s.pc.inSession = true)
    (goes_on : e ≠ .drop) (h : s.step e = some s') (unpolled : startsPoll k s e = false) :
    Raised s s' k := by
  cases e with
  | call n c =>
    simp only [step, call] at h
    split at h
    · cases h
      split
      · exact (perform_raised s c k).trans (settle_raised _ k)
      · exact settle_raised s k
    · cases h
  | wake target =>
    simp only [step, wake] at h
    split at h
    · cases h
      exact ((notifyWake_raised s k).trans (storeRunnable_raised _ target k)).trans
        (settle_raised _ k)
    · cases h
  | wakeBegin target =>
    cases h
    exact raised_of_registry k rfl
  | wakeStep i => exact wakeStep_raised k h
  | poll w =>
    simp only [step, poll] at h
    split at h <;> cases h <;> exact raised_of_registry k rfl
  | run => exact run_raised session h unpolled
  | dropped =>
    simp only [step, dropped] at h
    split at h
    · cases h
      exact atStage_raised _ _ _ _ k
    · cases h
      exact atStage_raised _ _ _ (.leave true) k
    · cases h
  | created =>
    simp only [step, created] at h
    split at h
    · cases h
      exact (raised_of_modify k _ rfl (by intro _ t runnable; exact runnable)).trans (atStage_raised _ _ _ _ k)
    · cases h
  | done isReady =>
    simp only [step, done] at h
    split at h
    · cases h
      exact (raised_of_modify k _ rfl (by intro _ t runnable; exact runnable)).trans (atStage_raised _ _ _ _ k)
    · cases h
  | panic => exact panic_raised k session h
  | lock =>
    simp only [step, lock] at h
    split at h
    · rename_i pc
      simp [pc, Pc.inSession] at session
    · cases h
  | drop => exact absurd rfl goes_on

/-! How the sweep moves along the registry. -/

theorem sweeps_of_begins {s : Wheel} {second : Bool} (begins : Begins s second) :
    s.sweeps .run = true := by
  cases begins with
  | clear pc => simp [sweeps, pc]
  | register pc => simp [sweeps, pc]
  | again b key pc past first busy => simp [sweeps, pc, past, first, busy]

theorem sweeps_event {s : Wheel} {e : Event} (starts : s.sweeps e = true) : e = .run := by
  cases e <;> first | rfl | cases starts

theorem Staged.next {s s' : Wheel} {c : Caller} {key : TaskKey} {stage : Stage} {p : Bool}
    {f : InitFlag} (staged : Staged s s' c key stage p f) : s'.pc.next = some (c.next key) := by
  rw [staged.pc', Pc.atStage_next]

theorem Ended.next {s : Wheel} {b : Beat} {pc : Pc} (ended : Ended s b pc) : pc.next = none := by
  cases ended <;> rfl

theorem after_next (key : TaskKey) {c : Caller} (session : c.inSession = true) :
    (Pc.after key c).next = some (c.next key) := by
  cases c <;> first | rfl | cases session

theorem startsPoll_chosen {k : TaskKey} {s : Wheel} {e : Event} (starts : startsPoll k s e = true) :
    e = .run ∧ ∃ b restart, s.pc = .chosen b k restart := by
  unfold startsPoll at starts
  split at starts
  · split at starts
    · rename_i b key restart pc
      have here : key = k := by simpa using starts
      exact ⟨rfl, b, restart, here ▸ pc⟩
    · cases starts
  · cases starts

/-- Within a sweep the next task to look at only moves up. -/
theorem next_step {s s' : Wheel} {e : Event} (sound : Sound s) (goes_on : e ≠ .drop)
    (h : s.step e = some s') (same : s.sweeps e = false) {n : TaskKey} (next : s'.pc.next = some n) :
    ∃ m, s.pc.next = some m ∧ m ≤ n := by
  cases step_move sound.session goes_on h with
  | stay pc' => exact ⟨n, pc' ▸ next, Nat.le_refl n⟩
  | begins second event begins =>
    rw [event, sweeps_of_begins begins] at same
    cases same
  | ended b key event pc past ended =>
    rw [ended.next] at next
    cases next
  | skip b key task event pc found rest pc' =>
    rw [pc'] at next
    cases next
    exact ⟨key, by rw [pc]; rfl, Nat.le_succ key⟩
  | choose b key task event pc found reason runnable pc' =>
    rw [pc'] at next
    cases next
    exact ⟨_, by rw [pc]; rfl, Nat.le_refl _⟩
  | arm b key task c event pc found arm free entered =>
    rw [entered.next] at next
    cases next
    exact ⟨key, by rw [pc]; rfl, Caller.le_next key c⟩
  | pass b key task event pc found waiting pc' =>
    rw [pc'] at next
    cases next
    exact ⟨key, by rw [pc]; rfl, Nat.le_succ key⟩
  | proceed b key task event pc found runnable pc' =>
    rw [pc'] at next
    cases next
    exact ⟨_, by rw [pc]; rfl, Nat.le_refl _⟩
  | pollBegin b key restart task c event pc found free caller entered =>
    rw [entered.next, caller] at next
    cases next
    exact ⟨key, by rw [pc]; rfl, Nat.le_succ key⟩
  | handled c key stage stage' write fresh pc handle staged =>
    obtain ⟨f, _, staged⟩ := sound.staged pc staged
    rw [staged.next] at next
    cases next
    exact ⟨c.next key, by rw [pc]; rfl, Nat.le_refl _⟩
  | resumed c key isReady event pc pc' =>
    have session : c.inSession = true := by
      have inside := sound.session
      rw [pc] at inside
      exact inside
    rw [pc', after_next key session] at next
    cases next
    exact ⟨c.next key, by rw [pc]; rfl, Nat.le_refl _⟩
  | nested key event busy hand => exact (sound.not_nested busy hand).elim
  | _ => simp_all [Pc.next]

/-- A task that the sweep has in hand for a restart stays there until it is polled. -/
theorem restarting_stays {k : TaskKey} {s s' : Wheel} {e : Event} (steady : Steady s)
    (h : s.step e = some s') (goes_on : e ≠ .drop) (calm : panics e = false)
    (hand : s.pc.restarting = some k) (unpolled : startsPoll k s e = false) :
    s'.pc.restarting = some k := by
  cases step_move steady.sound.session goes_on h with
  | stay pc' => exact pc' ▸ hand
  | enter w event pc => rcases pc with pc | ⟨v, pc⟩ <;> simp [Pc.restarting, pc] at hand
  | begins second event begins => cases begins <;> simp_all [Pc.restarting]
  | pass b key task event pc found waiting =>
    exact absurd (steady.ready b key task pc found) (by simp [waiting])
  | proceed b key task event pc found runnable pc' =>
    rw [pc] at hand
    rw [pc']
    exact hand
  | pollBegin b key restart task c event pc =>
    cases restart with
    | false => simp [Pc.restarting, pc] at hand
    | true =>
      have here : key = k := by simpa [Pc.restarting, pc] using hand
      simp [startsPoll, event, pc, here] at unpolled
  | handled c key stage stage' write fresh pc handle staged =>
    obtain ⟨f, _, staged⟩ := steady.sound.staged pc staged
    rw [staged.pc', Pc.atStage_restarting]
    rw [pc] at hand
    exact hand
  | resumed c key isReady event pc pc' =>
    rw [pc] at hand
    rw [pc']
    cases c <;> exact hand
  | unwound c key stage event =>
    rw [event] at calm
    cases calm
  | nested key event busy hand => exact (steady.sound.not_nested busy hand).elim
  | _ => simp_all [Pc.restarting]

/-- A task that can be polled stays so until it is polled, unless it is suspended,
cancelled or finishes. -/
theorem wants_step {k : TaskKey} {s s' : Wheel} {e : Event} (steady : Steady s)
    (h : s.step e = some s') (keeps : keepsWork k s e) (wants : Wants k s)
    (unpolled : startsPoll k s e = false) : Wants k s' := by
  obtain ⟨goes_on, calm, unsuspended, uncancelled, unended⟩ := keeps
  have goes_on : e ≠ .drop := by rintro rfl; cases goes_on
  rcases wants with ⟨t, found, work⟩ | hand
  case inr => exact .inr (restarting_stays steady h goes_on calm hand unpolled)
  obtain ⟨t', after, turn⟩ := (step_change steady.sound.session goes_on h).turn found
  have raised : t.runnable = true → t'.runnable = true := by
    simpa [Raised, found, after] using step_raised steady.sound.session goes_on h unpolled
  cases turn with
  | same aside reason =>
    refine .inl ⟨t', after, ?_⟩
    rw [reason]
    exact work.imp_left (fun both => ⟨both.1, raised both.2⟩)
  | resume session event valid held => simp [held] at work
  | suspend session event valid free =>
    refine absurd (event ▸ succeeds_suspend valid found ?_) unsuspended
    exact free.imp And.left And.left
  | restart session event valid fresh reason => exact .inl ⟨t', after, .inr reason⟩
  | cancel session event valid live =>
    exact absurd (event ▸ succeeds_cancel valid found live) uncancelled
  | arm b event pc reason =>
    have restart : t.stopReason = .restart := by
      rcases reason with ⟨reason, _⟩ | ⟨reason, _⟩ | ⟨reason, _⟩
      · simp [reason] at work
      · exact reason
      · simp [reason] at work
    subst event
    refine .inr ?_
    rw [restart_enters steady.sound h pc found restart, Pc.atStage_restarting]
    rfl
  | reset b c isReady event pc arm reason =>
    subst event
    have reset : t' = t.reset false := by
      have self := get_update_self s k (StaticFuture.reset false)
      rw [found] at self
      rcases arm with rfl | rfl <;> simp only [step, run, pc, resume] at h <;> cases h <;>
        exact Option.some.inj (after.symm.trans self)
    exact .inl ⟨t', after, .inl ⟨reason, by rw [reset]; rfl⟩⟩
  | finished b restart event pc =>
    subst event
    simp [ends, pc] at unended

/-- A sweep does not leave out a task that can be polled. -/
theorem coming_step {k : TaskKey} {s s' : Wheel} {e : Event} (steady : Steady s)
    (h : s.step e = some s') (goes_on : e ≠ .drop) (calm : panics e = false) (wants : Wants k s)
    (coming : Coming k s) (unpolled : startsPoll k s e = false) :
    s.sweeps e = false ∧ Coming k s' := by
  obtain ⟨n, next, ahead⟩ := coming
  have registered : k < s.tasks.length := by
    rcases wants with ⟨t, found, _⟩ | hand
    · exact (List.getElem?_eq_some_iff.mp found).1
    · refine steady.sound.present k ?_
      cases pc : s.pc <;> simp_all [Pc.restarting, Pc.subject]
  -- the task at the head of the sweep is the only one that could be passed over
  have work : ∀ b t, s.pc = .sweep b k → s.get k = some t →
      (t.stopReason = .none ∧ t.runnable = true) ∨ t.stopReason = .restart := by
    intro b t pc found
    rcases wants with ⟨t₀, found₀, work⟩ | hand
    · cases found.symm.trans found₀
      exact work
    · simp [pc, Pc.restarting] at hand
  cases step_move steady.sound.session goes_on h with
  | stay pc' quiet =>
    refine ⟨?_, n, pc' ▸ next, ahead⟩
    cases starts : s.sweeps e with
    | true => exact absurd (sweeps_event starts) quiet
    | false => rfl
  | enter w event pc => rcases pc with pc | ⟨v, pc⟩ <;> simp [pc, Pc.next] at next
  | begins second event begins =>
    cases begins with
    | again b key pc past =>
      rw [pc] at next
      obtain rfl : key = n := Option.some.inj next
      have beyond := List.getElem?_eq_none_iff.mp past
      exact absurd (Nat.le_trans beyond ahead) (Nat.not_le.mpr registered)
    | _ => simp_all [Pc.next]
  | ended b key event pc past =>
    rw [pc] at next
    obtain rfl : key = n := Option.some.inj next
    have beyond := List.getElem?_eq_none_iff.mp past
    exact absurd (Nat.le_trans beyond ahead) (Nat.not_le.mpr registered)
  | skip b key task event pc found rest pc' =>
    rw [pc] at next
    obtain rfl : key = n := Option.some.inj next
    refine ⟨by simp [sweeps, event, pc, found], key + 1, by rw [pc']; rfl, ?_⟩
    rcases Nat.lt_or_eq_of_le ahead with before | here
    · exact before
    · subst here
      rcases work b task pc found with ⟨reason, runnable⟩ | reason <;>
        simp_all [StaticFuture.hasWork]
  | choose b key task event pc found reason runnable pc' =>
    rw [pc] at next
    obtain rfl : key = n := Option.some.inj next
    exact ⟨by simp [sweeps, event, pc, found], key, by rw [pc']; rfl, ahead⟩
  | arm b key task c event pc found arm free entered =>
    rw [pc] at next
    obtain rfl : key = n := Option.some.inj next
    refine ⟨by simp [sweeps, event, pc, found], _, entered.next, ?_⟩
    rcases Nat.lt_or_eq_of_le ahead with before | here
    · exact Nat.le_trans (Caller.next_le key c) before
    · subst here
      have reason := work b task pc found
      generalize task.stopReason = r at arm reason
      cases arm <;> simp_all [Caller.next, Caller.restarts]
  | pass b key task event pc found waiting =>
    exact absurd (steady.ready b key task pc found) (by simp [waiting])
  | proceed b key task event pc found runnable pc' =>
    rw [pc] at next
    exact ⟨by simp [sweeps, event, pc], n, by rw [pc']; exact next, ahead⟩
  | pollBegin b key restart task c event pc found free caller entered =>
    rw [pc] at next
    obtain rfl : key = n := Option.some.inj next
    refine ⟨by simp [sweeps, event, pc], _, entered.next, ?_⟩
    have other : key ≠ k := by simpa [startsPoll, event, pc] using unpolled
    rw [caller]
    exact Nat.lt_of_le_of_ne ahead other
  | handled c key stage stage' write fresh pc handle staged =>
    obtain ⟨f, _, staged⟩ := steady.sound.staged pc staged
    rw [pc] at next
    refine ⟨?_, n, staged.next.trans next, ahead⟩
    unfold sweeps
    cases e <;> simp [pc]
  | resumed c key isReady event pc pc' =>
    have session : c.inSession = true := by
      have inside := steady.sound.session
      rw [pc] at inside
      exact inside
    rw [pc] at next
    exact ⟨by simp [sweeps, event, pc], n, by rw [pc', after_next key session]; exact next, ahead⟩
  | unwound c key stage event =>
    rw [event] at calm
    cases calm
  | nested key event busy hand => exact (steady.sound.not_nested busy hand).elim
  | _ => simp_all [Pc.next]

theorem starts_coming {s s' : Wheel} {e : Event} (k : TaskKey) (sound : Sound s) (goes_on : e ≠ .drop)
    (h : s.step e = some s') (starts : s.sweeps e = true) : Coming k s' := by
  have event := sweeps_event starts
  cases step_move sound.session goes_on h with
  | stay pc' quiet => exact absurd event quiet
  | begins second event begins pc' => exact ⟨0, by rw [pc']; rfl, Nat.zero_le k⟩
  | nested key event busy hand => exact (sound.not_nested busy hand).elim
  | ended b key event pc past ended =>
    exfalso
    generalize s'.pc = pc' at ended
    cases ended <;> simp_all [sweeps]
  | _ => simp_all [sweeps]

theorem laps {C : Wheel → Event → Wheel → Prop} (session : ∀ s e t, C s e t → continues e = true)
    (k : TaskKey) : Laps step Steady C sweeps (customer k) where
  keeps s e t steady h cond := steady_step steady (session s e t cond) h
  quiet s e away := by
    cases starts : startsPoll k s e with
    | false => exact starts
    | true =>
      obtain ⟨_, b, restart, pc⟩ := startsPoll_chosen starts
      exact absurd ⟨k, by rw [pc]; rfl, Nat.le_refl k⟩ away
  served s e t steady h starts := by
    obtain ⟨rfl, b, restart, pc⟩ := startsPoll_chosen starts
    cases step_move steady.sound.session (by simp) h with
    | pollBegin b' key restart' task c event pc' found free caller entered =>
      cases pc.symm.trans pc'
      refine ⟨?_, by simp [sweeps, pc]⟩
      rintro ⟨n, next, ahead⟩
      rw [entered.next, caller] at next
      cases next
      exact absurd ahead (Nat.not_succ_le_self k)
    | nested key event busy hand => exact (steady.sound.not_nested busy hand).elim
    | begins second event begins => cases begins <;> simp_all
    | _ => simp_all
  stays s e t steady h cond away same := by
    rintro ⟨n, next, ahead⟩
    have goes_on : e ≠ .drop := by rintro rfl; cases session s _ t cond
    obtain ⟨m, before, le⟩ := next_step steady.sound goes_on h same next
    exact away ⟨m, before, Nat.le_trans le ahead⟩

theorem rounds (k : TaskKey) :
    Rounds step Steady (fun s e _ => keepsWork k s e) sweeps (customer k) where
  toLaps := laps (fun _ _ _ cond => cond.1) k
  waits s e t steady h cond wants unpolled := wants_step steady h cond wants unpolled
  comes s e t steady h cond wants coming unpolled := by
    have goes_on : e ≠ .drop := by rintro rfl; cases cond.1
    exact coming_step steady h goes_on cond.2.1 wants coming unpolled
  starts s e t steady h cond starts wants := by
    have goes_on : e ≠ .drop := by rintro rfl; cases cond.1
    exact starts_coming k steady.sound goes_on h starts

theorem run_steady {s t : Wheel} {es : List Event} (fresh : Fresh s) (run : exec step s es = some t)
    (session : Along step (fun _ e _ => continues e = true) s es) : Steady t :=
  invariant_along (P := fun _ e _ => continues e = true)
    (fun _ _ _ inv h goes_on => steady_step inv goes_on h) fresh.steady run session

/-- No task is polled more often than sweeps start, but for the sweep in progress. -/
theorem polled_once_a_sweep {s₀ s : Wheel} {before after : List Event} (fresh : Fresh s₀)
    (run : exec step s₀ before = some s)
    (session : Along step (fun _ e _ => continues e = true) s₀ before)
    (goes_on : Along step (fun _ e _ => continues e = true) s after) (k : TaskKey) :
    tally step (startsPoll k) s after ≤ tally step sweeps s after + 1 ∧
      (¬ Coming k s → tally step (startsPoll k) s after ≤ tally step sweeps s after) :=
  (laps (fun _ _ _ cond => cond) k).serves_le (run_steady fresh run session) goes_on

/-- A task that can be polled is polled before the next sweep but one starts, and before any
other task has been polled three times. -/
theorem waiting_polled {s₀ s t : Wheel} {before after : List Event} {k : TaskKey} (fresh : Fresh s₀)
    (run : exec step s₀ before = some s)
    (session : Along step (fun _ e _ => continues e = true) s₀ before) (wants : Wants k s)
    (goes_on : exec step s after = some t)
    (keeps : Along step (fun s e _ => keepsWork k s e) s after) :
    (tally step (startsPoll k) s after = 0 →
      tally step sweeps s after ≤ 1 ∧ (Coming k s → tally step sweeps s after = 0)) ∧
      ∀ j, 3 ≤ tally step (startsPoll j) s after → 0 < tally step (startsPoll k) s after := by
  have steady := run_steady fresh run session
  constructor
  · intro none
    have silent : Along step (fun s e _ => startsPoll k s e = false) s after := by
      by_contra polled
      exact Nat.ne_of_gt (tally_pos_of_not_along goes_on polled) none
    exact (rounds k).starts_le steady keeps wants silent
  · intro j three
    exact (rounds k).overtaken_twice (laps (fun _ _ _ cond => cond.1) j) steady goes_on keeps wants three

/-- Both tasks wake themselves whenever they are polled. -/
def busyLap : List Event :=
  [.wake 0, .done false] ++ List.replicate 3 .run ++ [.wake 1, .done false] ++ List.replicate 4 .run

def busyLaps : List Event :=
  [.wake 0, .done false] ++ List.replicate 3 .run ++ [.created, .wake 1, .done false] ++
    List.replicate 4 .run ++ busyLap ++ busyLap

theorem waiting_polled_busy : ∃ s t, exec step (opened pair) inFirst = some s ∧ Wants 1 s ∧
    exec step s busyLaps = some t ∧ Along step (fun s e _ => keepsWork 1 s e) s busyLaps ∧
    3 ≤ tally step (startsPoll 0) s busyLaps ∧ 0 < tally step (startsPoll 1) s busyLaps := by
  have run : exec step (opened pair) inFirst = some (last step (opened pair) inFirst) :=
    exec_last (by decide +kernel)
  have goes_on : exec step (last step (opened pair) inFirst) busyLaps =
      some (last step (last step (opened pair) inFirst) busyLaps) := exec_last (by decide +kernel)
  have wants : Wants 1 (last step (opened pair) inFirst) := by decide +kernel
  have keeps : Along step (fun s e _ => keepsWork 1 s e) (last step (opened pair) inFirst) busyLaps := by
    decide +kernel
  have three : 3 ≤ tally step (startsPoll 0) (last step (opened pair) inFirst) busyLaps := by
    decide +kernel
  exact ⟨_, _, run, wants, goes_on, keeps, three,
    (waiting_polled pair_fresh run (by decide +kernel) wants goes_on keeps).2 0 three⟩

theorem polled_once_a_sweep_busy : ∃ s, exec step (opened pair) inFirst = some s ∧
    tally step sweeps s busyLaps = 3 ∧ tally step (startsPoll 1) s busyLaps ≤ 3 + 1 := by
  have run : exec step (opened pair) inFirst = some (last step (opened pair) inFirst) :=
    exec_last (by decide +kernel)
  have laps : tally step sweeps (last step (opened pair) inFirst) busyLaps = 3 := by decide +kernel
  refine ⟨_, run, laps, ?_⟩
  rw [← laps]
  exact (polled_once_a_sweep pair_fresh run (by decide +kernel) (by decide +kernel) 1).1

end Wheel
end Juggle.St
