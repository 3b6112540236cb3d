import Juggle.St.Sessions
import Juggle.St.Requests
import Juggle.St.Counts

/-! The end of a session: what `dispose` does with the futures that are still alive. -/
namespace Juggle.St
open Juggle.Utils Juggle.Count Juggle.Runs

namespace Pc

def disposing : Pc → Bool
  | .dispose _ _ => true
  | .inTask (.cleanup _) _ _ => true
  | .back (.cleanup _) _ _ => true
  | _ => false

/-- The tasks that `dispose` has been to. -/
def reached : Pc → TaskKey
  | .dispose _ key => key
  | .inTask _ key _ => key + 1
  | .back _ key _ => key + 1
  | _ => 0

/-- The future whose destructor runs. -/
def destroying : Pc → Option (TaskKey × FutureId)
  | .inTask _ key (.dropOld v) => some (key, v)
  | .inTask _ key (.dropDone v) => some (key, v)
  | _ => none

end Pc

namespace Wheel

/-- The future alive in the storage of a task. -/
def value (s : Wheel) (k : TaskKey) : Option FutureId :=
  (s.control k).bind (fun c => c.2.value)

/-- The step begins the destructor of the future. -/
def destroys (k : TaskKey) (v : FutureId) (s : Wheel) (e : Event) : Bool :=
  (s.step e).any (fun s' => decide (s'.pc ≠ s.pc) && decide (s'.pc.destroying = some (k, v)))

/-- If the destructors return, `dispose` comes to its end. -/
def Finishes (r : Wheel) : Prop :=
  ∃ fs t, (∀ e ∈ fs, e = .run ∨ e = .dropped) ∧ exec step r fs = some t ∧
    Along step (fun r _ _ => r.pc.disposing = true) r fs ∧ t.pc = .unlocked

/-- `dispose` has begun in `s`, with the step to `s₁`. Once it is through, by returning or
by unwinding, every future that was alive in `s` was dropped once, nothing else was, none
is left and the generation is another one. -/
structure Disposes (s s₁ : Wheel) : Prop where
  through : ∀ es t, exec step s₁ es = some t →
    Along step (fun r _ _ => r.pc.disposing = true) s₁ es → t.pc = .unlocked →
    (∀ k v, tally step (destroys k v) s₁ es = if s.value k = some v then 1 else 0) ∧
    (∀ k, t.value k = none) ∧ t.alg.currentGeneration ≠ s.alg.currentGeneration
  ends : ∀ es r, exec step s₁ es = some r →
    Along step (fun r _ _ => r.pc.disposing = true) s₁ es → r.pc.disposing = true → Finishes r

/-- Everything that can happen while `dispose` is at work. -/
inductive Cleans (s s' : Wheel) : Prop where
  | aside (pc' : s'.pc = s.pc) (kept : ∀ k, s'.value k = s.value k) (epoch : s'.epoch = s.epoch)
  | drops (unwinding : Bool) (key : TaskKey) (v : FutureId) (pc : s.pc = .dispose unwinding key)
      (held : s.value key = some v) (pc' : s'.pc = .inTask (.cleanup unwinding) key (.dropOld v))
      (emptied : s'.value key = none) (others : ∀ k, k ≠ key → s'.value k = s.value k)
      (epoch : s'.epoch = s.epoch)
  | passes (unwinding : Bool) (key : TaskKey) (pc : s.pc = .dispose unwinding key)
      (empty : s.value key = none) (pc' : s'.pc = .back (.cleanup unwinding) key true)
      (kept : ∀ k, s'.value k = s.value k) (epoch : s'.epoch = s.epoch)
  /-- the destructor has returned or unwound, or the task has been marked as cancelled -/
  | goesOn (unwinding unwinding' : Bool) (key : TaskKey)
      (pc : (∃ stage, s.pc = .inTask (.cleanup unwinding) key stage) ∨
        ∃ isReady, s.pc = .back (.cleanup unwinding) key isReady)
      (pc' : s'.pc = .back (.cleanup unwinding) key true ∨ s'.pc = .dispose unwinding' (key + 1))
      (kept : ∀ k, s'.value k = s.value k) (epoch : s'.epoch = s.epoch)
  | releases (unwinding : Bool) (key : TaskKey) (pc : s.pc = .dispose unwinding key)
      (past : s.tasks.length ≤ key) (pc' : s'.pc = .unlocked) (kept : ∀ k, s'.value k = s.value k)
      (epoch : s'.epoch = (wrappingInc s.alg.currentGeneration, s.session + 1))

theorem Kept.value {s s' : Wheel} (kept : Kept s s') (k : TaskKey) : s'.value k = s.value k := by
  unfold Wheel.value
  rw [kept.control]

theorem value_of_get {s : Wheel} {k : TaskKey} {task : StaticFuture} (found : s.get k = some task) :
    s.value k = task.flag.value := by
  unfold value
  rw [control_of_get found]
  rfl

theorem value_past {s : Wheel} {k : TaskKey} (past : s.tasks.length ≤ k) : s.value k = none := by
  have none : s.get k = none := List.getElem?_eq_none_iff.mpr past
  simp [value, control, none]

theorem value_update (s : Wheel) (key : TaskKey) (f : StaticFuture → StaticFuture)
    (same : ∀ t, (f t).flag = t.flag) (k : TaskKey) : (s.update key f).value k = s.value k := by
  unfold value
  by_cases here : k = key
  · subst here
    rw [control_update_self]
    cases found : s.get k with
    | none => simp [control, found]
    | some task => simp [control, found, StaticFuture.control, same]
  · rw [control_update_other s f here]

theorem Cleans.of_kept {s s' : Wheel} (pc' : s'.pc = s.pc) (kept : Kept s s')
    (epoch : s'.epoch = s.epoch) : Cleans s s' :=
  .aside pc' kept.value epoch

theorem disposing_unreturned {s : Wheel} (busy : s.pc.disposing = true) (v : Verdict) :
    s.pc ≠ .returned v := by
  intro pc
  rw [pc] at busy
  cases busy

theorem dispose_head {config : List StaticParams} {s s' : Wheel} {unwinding : Bool} {key : TaskKey}
    (opened : Opened config s) (pc : s.pc = .dispose unwinding key) (h : s.step .run = some s') :
    Cleans s s' ∧ s'.pc ≠ s.pc := by
  simp only [step, run, pc] at h
  by_cases bound : key < s.alg.registry.length
  · rw [if_pos bound] at h
    cases h
    have outside : s.pc.inside = none := by rw [pc]; rfl
    have found : s.get key = some s.alg.registry[key] := List.getElem?_eq_getElem bound
    have entered := pollProtected_staged (c := .cleanup unwinding) found
      (opened.guarded.unpolled outside found)
    have others : ∀ k, k ≠ key →
        (s.pollProtected (.cleanup unwinding) key).value k = s.value k := by
      intro k other
      unfold value
      rw [entered.others k other]
    have epoch := epoch_pollProtected s (.cleanup unwinding) key
    have emptied : (s.pollProtected (.cleanup unwinding) key).value key = none := by
      unfold value
      rw [entered.here]
      exact handleTask_no_value _ (by rintro ⟨⟩)
    have passing : s.value key = none →
        (s.pollProtected (.cleanup unwinding) key).pc = .back (.cleanup unwinding) key true →
        Cleans s (s.pollProtected (.cleanup unwinding) key) ∧
          (s.pollProtected (.cleanup unwinding) key).pc ≠ s.pc := by
      intro empty pc'
      refine ⟨.passes unwinding key pc empty pc' (fun k => ?_) epoch, by rw [pc', pc]; rintro ⟨⟩⟩
      by_cases here : k = key
      · rw [here, emptied, empty]
      · exact others k here
    have pc' := entered.pc'
    have held := value_of_get found
    cases flag : s.alg.registry[key].flag with
    | created v =>
      rw [flag] at pc' held
      refine ⟨.drops unwinding key v pc held pc' emptied others epoch, ?_⟩
      rw [pc', pc]
      rintro ⟨⟩
    | uninit =>
      rw [flag] at pc' held
      exact passing held pc'
    | dropped =>
      rw [flag] at pc' held
      exact passing held pc'
  · rw [if_neg bound] at h
    cases h
    refine ⟨.releases unwinding key pc (Nat.le_of_not_lt bound) rfl (fun _ => rfl) rfl, ?_⟩
    rw [pc]
    rintro ⟨⟩

/-- The result of the destructor, or of a task that had nothing to drop. -/
theorem dispose_back {s s' : Wheel} {c : Caller} {key : TaskKey} {isReady : Bool}
    (busy : s.pc.disposing = true) (pc : s.pc = .back c key isReady) (h : s.step .run = some s') :
    Cleans s s' := by
  simp only [step, run, pc] at h
  cases h
  cases c with
  | cleanup unwinding =>
    have kept : Kept s (s.resume (.cleanup unwinding) key isReady) :=
      .of_update (k := key) (setStopReason_control .cancelled) rfl rfl
    exact .goesOn unwinding unwinding key (.inr ⟨isReady, pc⟩) (.inr rfl) kept.value rfl
  | _ =>
    rw [pc] at busy
    cases busy

theorem dispose_dropped {s s' : Wheel} (guarded : Guarded s) (busy : s.pc.disposing = true)
    (h : s.step .dropped = some s') : Cleans s s' := by
  cases pc : s.pc with
  | inTask c key stage =>
    cases c with
    | cleanup unwinding =>
      obtain ⟨v, rfl⟩ := guarded.stage _ _ _ pc rfl
      simp only [step, dropped, pc, atStage, afterDrop, Caller.status] at h
      cases h
      obtain ⟨task, found⟩ := guarded.found (k := key) (by rw [pc]; rfl)
      have staged := leave_staged s (.cleanup unwinding) key true (control_of_get found)
      have kept : ∀ k, (s.leave (.cleanup unwinding) key true).value k = s.value k := by
        intro k
        unfold value
        by_cases here : k = key
        · rw [here, staged.here, control_of_get found]
          rfl
        · rw [staged.others k here]
      exact .goesOn unwinding unwinding key (.inl ⟨_, pc⟩) (.inl staged.pc') kept rfl
    | _ =>
      rw [pc] at busy
      cases busy
  | _ => simp [step, dropped, pc] at h

/-- A destructor that unwinds leaves the rest to the emergency loop. In that loop another
panic aborts the program. -/
theorem dispose_panic {s s' : Wheel} (busy : s.pc.disposing = true)
    (h : s.step .panic = some s') : Cleans s s' := by
  cases pc : s.pc with
  | inTask c key stage =>
    cases c with
    | cleanup unwinding =>
      simp only [step, panic, pc] at h
      split at h
      · cases unwinding with
        | true => cases h
        | false =>
          cases h
          have first := value_update s key (StaticFuture.setPolling false) (fun _ => rfl)
          have second := value_update (s.update key (StaticFuture.setPolling false)) key
            (StaticFuture.setStopReason .cancelled) (fun _ => rfl)
          exact .goesOn false true key (.inl ⟨_, pc⟩) (.inr rfl)
            (fun k => (second k).trans (first k)) rfl
      · cases h
    | _ =>
      rw [pc] at busy
      cases busy
  | _ => simp [step, panic, pc] at h

theorem dispose_step {config : List StaticParams} {s s' : Wheel} {e : Event}
    (opened : Opened config s) (busy : s.pc.disposing = true) (h : s.step e = some s') :
    Cleans s s' := by
  have unreturned := disposing_unreturned busy
  have beside : Aside s s' → Cleans s s' := fun aside =>
    aside.pc'.elim (fun pc => .of_kept pc aside.kept aside.epoch)
      (fun ⟨v, pc, _⟩ => absurd pc (unreturned v))
  cases e with
  | call session c => exact beside (aside_step rfl h)
  | wake target => exact beside (aside_step rfl h)
  | wakeBegin target => exact beside (aside_step rfl h)
  | wakeStep i => exact beside (aside_step rfl h)
  | run =>
    cases pc : s.pc with
    | dispose unwinding key => exact (dispose_head opened pc h).1
    | back c key isReady => exact dispose_back busy pc h
    | _ =>
      rw [pc] at busy
      first | cases busy | simp [step, run, pc] at h
  | dropped => exact dispose_dropped opened.guarded busy h
  | panic => exact dispose_panic busy h
  | created =>
    simp only [step, created] at h
    split at h
    · rename_i c key pc
      rw [pc] at busy
      cases c <;> try cases busy
      obtain ⟨v, stage⟩ := opened.guarded.stage _ _ _ pc rfl
      cases stage
    · cases h
  | done isReady =>
    simp only [step, done] at h
    split at h
    · rename_i c key v pc
      rw [pc] at busy
      cases c <;> try cases busy
      obtain ⟨v, stage⟩ := opened.guarded.stage _ _ _ pc rfl
      cases stage
    · cases h
  | poll w =>
    simp only [step, poll] at h
    split at h
    · rename_i pc
      rw [pc] at busy
      cases busy
    · rename_i v pc
      exact absurd pc (unreturned v)
    · cases h
  | lock =>
    simp only [step, lock] at h
    split at h
    · rename_i pc
      rw [pc] at busy
      cases busy
    · cases h
  | drop =>
    simp only [step, drop] at h
    split at h
    · rename_i pc
      rw [pc] at busy
      cases busy
    · rename_i v pc
      exact absurd pc (unreturned v)
    · cases h

/-- The tasks that `dispose` has been to hold nothing. -/
structure Cleared (s : Wheel) : Prop where
  busy : s.pc.disposing = true
  below : ∀ k, k < s.pc.reached → s.value k = none

theorem cleared_step {s s' : Wheel} (cleared : Cleared s) (cleans : Cleans s s') :
    (Cleared s' ∧ s'.epoch = s.epoch) ∨ (s'.pc = .unlocked ∧ (∀ k, s'.value k = none) ∧
      s'.alg.currentGeneration = wrappingInc s.alg.currentGeneration) := by
  cases cleans with
  | aside pc' kept epoch =>
    refine .inl ⟨⟨pc' ▸ cleared.busy, fun k below => ?_⟩, epoch⟩
    rw [kept]
    exact cleared.below k (pc' ▸ below)
  | drops unwinding key v pc held pc' emptied others epoch =>
    refine .inl ⟨⟨by rw [pc']; rfl, fun k below => ?_⟩, epoch⟩
    rw [pc'] at below
    by_cases here : k = key
    · rw [here, emptied]
    · rw [others k here]
      refine cleared.below k ?_
      rw [pc]
      exact Nat.lt_of_le_of_ne (Nat.le_of_lt_succ below) here
  | passes unwinding key pc empty pc' kept epoch =>
    refine .inl ⟨⟨by rw [pc']; rfl, fun k below => ?_⟩, epoch⟩
    rw [pc'] at below
    rw [kept]
    by_cases here : k = key
    · rw [here, empty]
    · refine cleared.below k ?_
      rw [pc]
      exact Nat.lt_of_le_of_ne (Nat.le_of_lt_succ below) here
  | goesOn unwinding unwinding' key pc pc' kept epoch =>
    have reached : s.pc.reached = key + 1 := by
      rcases pc with ⟨stage, pc⟩ | ⟨isReady, pc⟩ <;> rw [pc] <;> rfl
    have same : s'.pc.disposing = true ∧ s'.pc.reached = s.pc.reached := by
      rw [reached]
      rcases pc' with pc' | pc' <;> rw [pc'] <;> exact ⟨rfl, rfl⟩
    refine .inl ⟨⟨same.1, fun k below => ?_⟩, epoch⟩
    rw [kept]
    exact cleared.below k (same.2 ▸ below)
  | releases unwinding key pc past pc' kept epoch =>
    refine .inr ⟨pc', fun k => ?_, congrArg Prod.fst epoch⟩
    rw [kept]
    by_cases below : k < key
    · exact cleared.below k (by rw [pc]; exact below)
    · exact value_past (Nat.le_trans past (Nat.le_of_not_lt below))

/-- A future leaves the storage when its destructor begins, and at no other step. -/
theorem cleans_counts {s s' : Wheel} {e : Event} (cleans : Cleans s s') (h : s.step e = some s')
    (k : TaskKey) (v : FutureId) :
    (if destroys k v s e then 1 else 0) + (if s'.value k = some v then 1 else 0) =
      if s.value k = some v then 1 else 0 := by
  have quiet : s'.pc = s.pc ∨ s'.pc.destroying = none → destroys k v s e = false := by
    intro still
    rcases still with still | still <;> simp [destroys, h, still]
  cases cleans with
  | aside pc' kept epoch => simp [quiet (.inl pc'), kept]
  | drops unwinding key w pc held pc' emptied others epoch =>
    have here : destroys k v s e = decide ((key, w) = (k, v)) := by
      simp [destroys, h, pc, pc', Pc.destroying]
    rw [here]
    by_cases at_key : k = key
    · subst at_key
      simp [emptied, held]
    · simp [others k at_key, Ne.symm at_key]
  | passes unwinding key pc empty pc' kept epoch => simp [quiet (.inr (by rw [pc']; rfl)), kept]
  | goesOn unwinding unwinding' key pc pc' kept epoch =>
    have still : s'.pc.destroying = none := by rcases pc' with pc' | pc' <;> rw [pc'] <;> rfl
    simp [quiet (.inr still), kept]
  | releases unwinding key pc past pc' kept epoch => simp [quiet (.inr (by rw [pc']; rfl)), kept]

theorem dispose_run {config : List StaticParams} {r t : Wheel} {es : List Event}
    (opened : Opened config r) (cleared : Cleared r) (run : exec step r es = some t)
    (busy : Along step (fun r _ _ => r.pc.disposing = true) r es) (released : t.pc = .unlocked) :
    (∀ k v, tally step (destroys k v) r es = if r.value k = some v then 1 else 0) ∧
    (∀ k, t.value k = none) ∧
    t.alg.currentGeneration = wrappingInc r.alg.currentGeneration := by
  induction es generalizing r with
  | nil =>
    have same := Option.some.inj run
    have still := cleared.busy
    rw [same, released] at still
    cases still
  | cons e es ih =>
    obtain ⟨r', taken, rest⟩ := exec_cons run
    have cleans := dispose_step opened cleared.busy taken
    rcases cleared_step cleared cleans with ⟨cleared', epoch⟩ | ⟨pc', empty, generation⟩
    · obtain ⟨counts, emptied, generation⟩ :=
        ih (opened_step opened taken) cleared' rest (busy r' taken).2
      refine ⟨fun k v => ?_, emptied, ?_⟩
      · rw [← cleans_counts cleans taken k v, ← counts k v]
        simp only [tally, taken]
      · rw [generation, show r'.alg.currentGeneration = r.alg.currentGeneration from
          congrArg Prod.fst epoch]
    · cases es with
      | cons f es =>
        obtain ⟨r'', taken', -⟩ := exec_cons rest
        have still : r'.pc.disposing = true := ((busy r' taken).2 r'' taken').1
        rw [pc'] at still
        cases still
      | nil =>
        cases Option.some.inj rest
        refine ⟨fun k v => ?_, empty, generation⟩
        rw [← cleans_counts cleans taken k v, empty k]
        simp [tally, taken]

theorem Finishes.of_step {r r' : Wheel} {e : Event} (own : e = .run ∨ e = .dropped)
    (busy : r.pc.disposing = true) (taken : r.step e = some r')
    (rest : r'.pc = .unlocked ∨ Finishes r') : Finishes r := by
  have first : exec step r [e] = some r' := by simp [exec, taken]
  rcases rest with released | ⟨fs, t, owns, run, along, released⟩
  · refine ⟨[e], r', by simpa using own, first, fun _ _ => ⟨busy, trivial⟩, released⟩
  · refine ⟨e :: fs, t, ?_, exec_append first run, ?_, released⟩
    · intro f member
      rcases List.mem_cons.mp member with rfl | member
      · exact own
      · exact owns f member
    · intro r'' taken'
      rw [taken] at taken'
      exact ⟨busy, Option.some.inj taken' ▸ along⟩

theorem finishes_task {s : Wheel} {unwinding : Bool} {key : TaskKey}
    (hand : (∃ v, s.pc = .inTask (.cleanup unwinding) key (.dropOld v)) ∨
      ∃ isReady, s.pc = .back (.cleanup unwinding) key isReady)
    (next : ∀ r, exec step s [.run] = some r ∨ exec step s [.dropped, .run] = some r →
      r.pc = .dispose unwinding (key + 1) → Finishes r) : Finishes s := by
  have from_back : ∀ {r : Wheel} {isReady : Bool}, r.pc = .back (.cleanup unwinding) key isReady →
      r.step .run = some (r.resume (.cleanup unwinding) key isReady) := by
    intro r isReady pc
    simp only [step, run, pc]
  rcases hand with ⟨v, pc⟩ | ⟨isReady, pc⟩
  · have taken : s.step .dropped = some (s.leave (.cleanup unwinding) key true) := by
      simp only [step, dropped, pc]
      rfl
    have left : (s.leave (.cleanup unwinding) key true).pc = .back (.cleanup unwinding) key true :=
      rfl
    have taken' := from_back left
    have both : exec step s [.dropped, .run] =
        some ((s.leave (.cleanup unwinding) key true).resume (.cleanup unwinding) key true) := by
      simp only [exec, taken, taken', Option.bind_some]
    have rest := Finishes.of_step (.inl rfl) rfl taken' (.inr (next _ (.inr both) rfl))
    exact .of_step (.inr rfl) (by rw [pc]; rfl) taken (.inr rest)
  · have taken := from_back pc
    have one : exec step s [.run] = some (s.resume (.cleanup unwinding) key isReady) := by
      simp only [exec, taken, Option.bind_some]
    exact .of_step (.inl rfl) (by rw [pc]; rfl) taken (.inr (next _ (.inl one) rfl))

/-- Opened wheels run on as opened wheels with as many tasks. -/
theorem opened_run {config : List StaticParams} {s t : Wheel} {es : List Event}
    (opened : Opened config s) (run : exec step s es = some t) :
    Opened config t ∧ t.tasks.length = s.tasks.length := by
  have opened' := invariant_run (fun r e r' inv h => opened_step inv h) opened run
  have here := congrArg List.length opened.shapes
  have there := congrArg List.length opened'.shapes
  exact ⟨opened', by simpa [Wheel.shapes] using there.trans here.symm⟩

theorem finishes_head {config : List StaticParams} (n : Nat) :
    ∀ {s : Wheel} {unwinding : Bool} {key : Nat}, Opened config s →
    s.pc = .dispose unwinding key → s.tasks.length - key < n → Finishes s := by
  induction n with
  | zero => exact fun _ _ left => absurd left (Nat.not_lt_zero _)
  | succ n ih =>
    intro s unwinding key opened pc left
    have busy : s.pc.disposing = true := by rw [pc]; rfl
    obtain ⟨s', taken⟩ : ∃ s', s.step .run = some s' := by
      simp only [step, run, pc]
      exact ⟨_, rfl⟩
    obtain ⟨cleans, turned⟩ := dispose_head opened pc taken
    have bounded : s'.pc ≠ .unlocked → key < s.tasks.length := by
      intro inside
      by_contra past
      simp only [step, run, pc, if_neg (show ¬ key < s.alg.registry.length from past)] at taken
      cases taken
      exact inside rfl
    have next : ∀ r u, exec step s' [.run] = some r ∨ exec step s' [.dropped, .run] = some r →
        r.pc = .dispose u (key + 1) → s'.pc ≠ .unlocked → Finishes r := by
      intro r u run pc' inside
      have opened' := opened_step opened taken
      have shapes := length_of_shapes (step_shapes taken (by rintro ⟨⟩))
      have bound := bounded inside
      obtain ⟨after, length⟩ : Opened config r ∧ r.tasks.length = s'.tasks.length := by
        rcases run with run | run <;> exact opened_run opened' run
      refine ih after pc' ?_
      rw [length, shapes]
      omega
    cases cleans with
    | aside pc' => exact absurd pc' turned
    | drops u key' v pc₂ held pc' =>
      cases pc.symm.trans pc₂
      have inside : s'.pc ≠ .unlocked := by rw [pc']; rintro ⟨⟩
      exact .of_step (.inl rfl) busy taken (.inr (finishes_task (.inl ⟨v, pc'⟩)
        (fun r run at_next => next r _ run at_next inside)))
    | passes u key' pc₂ empty pc' =>
      cases pc.symm.trans pc₂
      have inside : s'.pc ≠ .unlocked := by rw [pc']; rintro ⟨⟩
      exact .of_step (.inl rfl) busy taken (.inr (finishes_task (.inr ⟨true, pc'⟩)
        (fun r run at_next => next r _ run at_next inside)))
    | goesOn u u' key' pc₂ =>
      rw [pc] at pc₂
      rcases pc₂ with ⟨stage, pc₂⟩ | ⟨isReady, pc₂⟩ <;> cases pc₂
    | releases u key' pc₂ past pc' => exact .of_step (.inl rfl) busy taken (.inl pc')

/-- Wherever `dispose` stands, it has an end. -/
theorem disposing_finishes {config : List StaticParams} {s : Wheel} (opened : Opened config s)
    (busy : s.pc.disposing = true) : Finishes s := by
  have next : ∀ r u key, exec step s [.run] = some r ∨ exec step s [.dropped, .run] = some r →
      r.pc = .dispose u key → Finishes r := by
    intro r u key run pc
    have after : Opened config r := by
      rcases run with run | run <;> exact (opened_run opened run).1
    exact finishes_head _ after pc (Nat.lt_succ_self _)
  cases pc : s.pc with
  | dispose u key => exact finishes_head _ opened pc (Nat.lt_succ_self _)
  | inTask c key stage =>
    cases c with
    | cleanup u =>
      obtain ⟨v, rfl⟩ := opened.guarded.stage _ _ _ pc rfl
      exact finishes_task (.inl ⟨v, pc⟩) (fun r run pc' => next r u _ run pc')
    | _ =>
      rw [pc] at busy
      cases busy
  | back c key isReady =>
    cases c with
    | cleanup u => exact finishes_task (.inr ⟨isReady, pc⟩) (fun r run pc' => next r u _ run pc')
    | _ =>
      rw [pc] at busy
      cases busy
  | _ =>
    rw [pc] at busy
    cases busy

theorem drop_cases {s s₁ : Wheel} (begun : s.step .drop = some s₁) :
    (s.pc = .idle ∨ ∃ v, s.pc = .returned v) ∧ s₁ = s.dispose false := by
  simp only [step, drop] at begun
  split at begun
  · rename_i pc
    cases begun
    exact ⟨.inl pc, rfl⟩
  · rename_i v pc
    cases begun
    exact ⟨.inr ⟨v, pc⟩, rfl⟩
  · cases begun

theorem Known.locked {config : List StaticParams} {s : Wheel} (known : Known config s)
    (locked : s.pc ≠ .unlocked) : Opened config s :=
  known.resolve_left (fun unopened => locked unopened.pc)

/-- The loop over the tasks drops whatever is alive. -/
theorem dispose_disposes {config : List StaticParams} {s s₁ : Wheel} (opened : Opened config s)
    (begun : s.step .drop = some s₁) (counted : s.alg.unfinishedCount ≠ 0) : Disposes s s₁ := by
  have opened₁ := opened_step opened begun
  obtain ⟨-, rfl⟩ := drop_cases begun
  simp only [dispose, if_neg counted] at opened₁ ⊢
  have cleared : Cleared (s.goto (.dispose false 0)) :=
    ⟨rfl, fun k below => absurd below (Nat.not_lt_zero k)⟩
  constructor
  · intro es t run busy released
    obtain ⟨counts, empty, generation⟩ := dispose_run opened₁ cleared run busy released
    refine ⟨counts, empty, ?_⟩
    rw [generation]
    exact wrappingInc_ne _
  · intro es r run _ busy
    exact disposing_finishes (opened_run opened₁ run).1 busy

/-- The early return drops nothing. -/
theorem release_disposes {s : Wheel} : Disposes s s.release ↔ ∀ k, s.value k = none := by
  have stays : ∀ es r, exec step s.release es = some r →
      Along step (fun r _ _ => r.pc.disposing = true) s.release es → es = [] := by
    intro es r run busy
    cases es with
    | nil => rfl
    | cons e es =>
      obtain ⟨r', taken, -⟩ := exec_cons run
      cases (busy r' taken).1
  constructor
  · intro disposes k
    exact (disposes.through [] _ rfl trivial rfl).2.1 k
  · intro empty
    constructor
    · intro es t run busy _
      cases stays es t run busy
      cases Option.some.inj run
      refine ⟨fun k v => ?_, empty, wrappingInc_ne _⟩
      simp [tally, empty]
    · intro es r run along busy
      cases stays es r run along
      cases Option.some.inj run
      cases busy

theorem disposes_iff {config : List StaticParams} {s s₁ : Wheel} (opened : Opened config s)
    (begun : s.step .drop = some s₁) :
    Disposes s s₁ ↔ (s.alg.unfinishedCount ≠ 0 ∨ ∀ k, s.value k = none) := by
  by_cases zero : s.alg.unfinishedCount = 0
  · obtain ⟨-, rfl⟩ := drop_cases begun
    simp only [dispose, zero, ne_eq, not_true_eq_false, false_or]
    exact release_disposes
  · exact ⟨fun _ => .inl zero, fun _ => dispose_disposes opened begun zero⟩

theorem drop_opened {config : List StaticParams} (small : config.length < usizeMax)
    {s s₁ : Wheel} (reach : Reachable step (fun s => s = new config) s)
    (begun : s.step .drop = some s₁) : Opened config s := by
  have locked : s.pc ≠ .unlocked := by
    rcases (drop_cases begun).1 with pc | ⟨v, pc⟩ <;> rw [pc] <;> nofun
  exact (reachable_known small reach).locked locked

/-- `dispose` drops all futures that are alive, and each of them once, except where it
returns at once although some are. -/
theorem dispose_right {config : List StaticParams} (small : config.length < usizeMax)
    {s s₁ : Wheel} (reach : Reachable step (fun s => s = new config) s)
    (begun : s.step .drop = some s₁) :
    Disposes s s₁ ↔ (s.alg.unfinishedCount ≠ 0 ∨ ∀ k, s.value k = none) :=
  disposes_iff (drop_opened small reach begun) begun

/-- Both tasks are polled once and wait. -/
def bothWait : List Event :=
  [.lock, .poll 7, .run, .run, .run, .created, .done false, .run, .run, .run, .created,
    .done false] ++ List.replicate 9 .run

/-- The first of the two destructors panics, the second one returns. -/
def cleanedUp : List Event := [.run, .panic, .run, .dropped, .run, .run]

def two : List StaticParams := [⟨false, none⟩, ⟨false, none⟩]

theorem two_small : two.length < usizeMax := by simp [two, usizeMax]

theorem dispose_right_bothWait : ∃ s s₁ t, exec step (new two) bothWait = some s ∧
    s.value 0 = some 0 ∧ s.value 1 = some 1 ∧ s.step .drop = some s₁ ∧ Disposes s s₁ ∧
    exec step s₁ cleanedUp = some t ∧ t.pc = .unlocked ∧
    tally step (destroys 0 0) s₁ cleanedUp = 1 ∧ tally step (destroys 1 1) s₁ cleanedUp = 1 := by
  have run : exec step (new two) bothWait = some (last step (new two) bothWait) :=
    exec_last (by decide +kernel)
  have begun : (last step (new two) bothWait).step .drop =
      some (last step (last step (new two) bothWait) [.drop]) := step_last (by decide +kernel)
  have disposes := (dispose_right two_small ⟨_, _, rfl, run⟩ begun).mpr (.inl (by decide +kernel))
  have ends : exec step (last step (last step (new two) bothWait) [.drop]) cleanedUp =
      some (last step (last step (last step (new two) bothWait) [.drop]) cleanedUp) :=
    exec_last (by decide +kernel)
  exact ⟨_, _, _, run, by decide +kernel, by decide +kernel, begun, disposes, ends,
    by decide +kernel, by decide +kernel, by decide +kernel⟩

/-- Then the first task is cancelled and the wheel is polled: two sweeps count it off. -/
def countedOff : List Event :=
  bothWait ++ [.call 0 (.cancel 0), .poll 8, .run, .run, .dropped] ++ List.replicate 9 .run

/-- The wheel says that all tasks are finished, and `dispose` leaves the second one alive. -/
theorem countedOff_not_disposes : ∃ s s₁, exec step (new two) countedOff = some s ∧
    s.pc = .returned (.ready true) ∧ s.alg.unfinishedCount = 0 ∧ s.step .drop = some s₁ ∧
    s₁.pc = .unlocked ∧ s₁.value 1 = some 1 ∧ ¬ Disposes s s₁ := by
  have run : exec step (new two) countedOff = some (last step (new two) countedOff) :=
    exec_last (by decide +kernel)
  have begun : (last step (new two) countedOff).step .drop =
      some (last step (last step (new two) countedOff) [.drop]) := step_last (by decide +kernel)
  have released : (last step (last step (new two) countedOff) [.drop]).pc = .unlocked := by
    decide +kernel
  have alive : (last step (last step (new two) countedOff) [.drop]).value 1 = some 1 := by
    decide +kernel
  refine ⟨_, _, run, by decide +kernel, by decide +kernel, begun, released, alive, ?_⟩
  intro disposes
  have gone := (disposes.through [] _ rfl trivial released).2.1 1
  rw [alive] at gone
  cases gone

/-! Where `unfinished_count` is right, the early return finds nothing alive. -/

/-- What `beat_once` has ended holds no future. -/
structure Drained (s : Wheel) : Prop where
  ended : ∀ k t, s.get k = some t → t.ended = true → s.value k = none
  ready : ∀ c k, s.pc = .back c k true → s.value k = none

theorem handleTask_value (flag : InitFlag) (status : Status) :
    (handleTask flag status).1.value = flag.value ∨ (handleTask flag status).1.value = none := by
  cases status <;> cases flag <;> first | exact .inl rfl | exact .inr rfl

theorem handleTask_ready {flag : InitFlag} {status : Status}
    (leaves : (handleTask flag status).2 = .leave true) :
    (handleTask flag status).1.value = none := by
  cases status <;> cases flag <;> first | rfl | cases leaves

theorem Staged.value {s s' : Wheel} {c : Caller} {key : TaskKey} {stage : Stage} {p : Bool}
    {f : InitFlag} (staged : Staged s s' c key stage p f) : s'.value key = f.value := by
  unfold Wheel.value
  rw [staged.here]
  rfl

theorem Staged.value_other {s s' : Wheel} {c : Caller} {key k : TaskKey} {stage : Stage} {p : Bool}
    {f : InitFlag} (staged : Staged s s' c key stage p f) (other : k ≠ key) :
    s'.value k = s.value k := by
  unfold Wheel.value
  rw [staged.others k other]

theorem entered_value {s s' : Wheel} {c : Caller} {key k : TaskKey} {task : StaticFuture}
    {p : Bool} (found : s.get key = some task)
    (entered : Staged s s' c key (handleTask task.flag c.status).2 p
      (handleTask task.flag c.status).1) : s'.value k = s.value k ∨ s'.value k = none := by
  by_cases here : k = key
  · rw [here, entered.value, value_of_get found]
    exact handleTask_value task.flag c.status
  · exact .inl (entered.value_other here)

/-- A storage is filled by the `init` closure only. -/
theorem value_step {s s' : Wheel} {e : Event} (sound : Sound s) (stored : Stored s)
    (move : Move s e s') (k : TaskKey) :
    s'.value k = s.value k ∨ s'.value k = none ∨ ∃ c, s.pc = .inTask c k .init := by
  cases move with
  | arm b key task c event pc found arm free entered =>
    exact (entered_value found entered).imp id .inl
  | pollBegin b key restart task c event pc found free caller entered =>
    exact (entered_value found entered).imp id .inl
  | handled c key stage stage' write next pc handle staged =>
    obtain ⟨f, here, staged⟩ := sound.staged pc staged
    by_cases at_key : k = key
    · subst at_key
      have before : s.value k = f.value := by
        unfold value
        rw [here]
        rfl
      rw [staged.value, before]
      cases handle with
      | dropOld v => exact .inl rfl
      | dropDone v => exact .inl rfl
      | init => exact .inr (.inr ⟨c, pc⟩)
      | poll v isReady =>
        cases isReady with
        | true => exact .inr (.inl rfl)
        | false =>
          rw [stored.polled _ _ _ _ _ pc here]
          exact .inl rfl
    · exact .inl (staged.value_other at_key)
  | unwound c key stage event pc code pc' here others =>
    by_cases at_key : k = key
    · subst at_key
      left
      unfold value
      rw [here]
      cases s.control k <;> rfl
    · left
      unfold value
      rw [others k at_key]
  | nested key event busy hand => exact (sound.not_nested busy hand).elim
  | _ => exact .inl (Kept.value (by assumption) k)

theorem atStage_eq_back {c c' : Caller} {key key' : TaskKey} {stage : Stage} {isReady : Bool}
    (pc : Pc.atStage c key stage = .back c' key' isReady) : key' = key ∧ stage = .leave isReady := by
  cases stage <;> cases pc
  exact ⟨rfl, rfl⟩

/-- The `Cancelled` arm empties the storage at once. -/
theorem cancelled_value {s s' : Wheel} {b : Beat} {k : TaskKey} {t : StaticFuture} (sound : Sound s)
    (h : s.step .run = some s') (pc : s.pc = .sweep b k) (found : s.get k = some t)
    (reason : t.stopReason = .cancelled) : s'.value k = none := by
  have free := sound.unpolled (by rw [pc]; rfl) found
  have prepared : (s.update k (StaticFuture.setEnded true)).get k = some (t.setEnded true) := by
    rw [get_update_self, found]
    rfl
  have staged := pollProtected_staged (c := .cancelled b) prepared free
  simp only [step, run, pc, found, visit, reason] at h
  cases h
  rw [staged.value]
  exact handleTask_no_value _ (by rintro ⟨⟩)

theorem drained_ready {s s' : Wheel} {e : Event} (sound : Sound s) (stored : Stored s)
    (drained : Drained s) (move : Move s e s') {c : Caller} {k : TaskKey}
    (pc₂ : s'.pc = .back c k true) : s'.value k = none := by
  cases move with
  | stay pc' quiet kept =>
    rw [kept.value]
    exact drained.ready c k (pc'.symm.trans pc₂)
  | arm b key task c event pc found arm free entered =>
    obtain ⟨rfl, leaves⟩ := atStage_eq_back (entered.pc'.symm.trans pc₂)
    rw [entered.value]
    exact handleTask_ready leaves
  | pollBegin b key restart task c event pc found free caller entered =>
    obtain ⟨rfl, leaves⟩ := atStage_eq_back (entered.pc'.symm.trans pc₂)
    rw [entered.value]
    exact handleTask_ready leaves
  | handled c key stage stage' write next pc handle staged =>
    obtain ⟨f, here, staged⟩ := sound.staged pc staged
    obtain ⟨rfl, leaves⟩ := atStage_eq_back (staged.pc'.symm.trans pc₂)
    rw [staged.value]
    cases handle with
    | dropOld v => exact stored.empty _ _ _ _ _ pc rfl here
    | dropDone v => exact stored.empty _ _ _ _ _ pc rfl here
    | init => cases leaves
    | poll v isReady => cases isReady <;> cases leaves
  | ended b key event pc past ended =>
    have free := ended.free.1
    rw [pc₂] at free
    cases free
  | resumed c' key isReady event pc pc' =>
    rw [pc'] at pc₂
    cases c' <;> cases pc₂
  | nested key event busy hand => exact (sound.not_nested busy hand).elim
  | _ => simp_all

theorem drained_step {s s' : Wheel} {e : Event} (sound : Sound s) (stored : Stored s)
    (goes_on : e ≠ .drop) (h : s.step e = some s') (drained : Drained s) : Drained s' := by
  have move := step_move sound.session goes_on h
  refine ⟨fun k t' after ended => ?_, fun c k pc => drained_ready sound stored drained move pc⟩
  obtain ⟨t, found, turn⟩ := (step_change sound.session goes_on h).origin after
  have persists : t.ended = true → s'.value k = none := by
    intro passed
    have empty := drained.ended k t found passed
    rcases value_step sound stored move k with same | gone | ⟨c, pc⟩
    · rw [same, empty]
    · exact gone
    · have polls : c.polls = true := by
        by_contra drops
        obtain ⟨v, stage⟩ := sound.stage c k .init pc (by simpa using drops)
        cases stage
      have serving : s.pc.serving = some k := by
        rw [pc]
        cases c <;> first | rfl | cases polls
      rw [sound.living k t serving found] at passed
      cases passed
  cases turn with
  | restart session event valid fresh reason cleared =>
    rw [cleared] at ended
    cases ended
  | arm b event pc reason =>
    subst event
    rcases reason with ⟨reason, -, -⟩ | ⟨-, -, same⟩ | ⟨-, -, same⟩
    · exact cancelled_value sound h pc found reason
    · exact persists (same ▸ ended)
    · exact persists (same ▸ ended)
  | finished b restart event pc =>
    have empty := drained.ready _ k pc
    rcases value_step sound stored move k with same | gone | ⟨c, inside⟩
    · rw [same, empty]
    · exact gone
    · rw [pc] at inside
      cases inside
  | same aside reason same => exact persists (same ▸ ended)
  | resume session event valid held reason same => exact persists (same ▸ ended)
  | suspend session event valid free same => exact persists (same ▸ ended)
  | cancel session event valid live reason same => exact persists (same ▸ ended)
  | reset b c isReady event pc arm reason same => exact persists (same ▸ ended)

theorem Fresh.drained {s : Wheel} (fresh : Fresh s) : Drained s where
  ended k t found passed := by
    have alive := (fresh.tasks t (List.mem_of_getElem? found)).alive
    rw [alive] at passed
    cases passed
  ready c k pc := by
    rw [fresh.pc] at pc
    cases pc

theorem drained_run {s t : Wheel} {es : List Event} (fresh : Fresh s)
    (run : exec step s es = some t)
    (safe : Along step (fun s e _ => s.keepsUnfinished e = true) s es) : Drained t := by
  refine (invariant_along (I := fun s => Sound s ∧ Stored s ∧ Drained s) ?_
    ⟨fresh.sound, fresh.stored, fresh.drained⟩ run safe).2.2
  rintro r e r' ⟨sound, stored, drained⟩ h keeps
  have goes_on := goes_on_of_continues (Bool.and_eq_true_iff.mp keeps).1
  exact ⟨step_sound sound goes_on h, stored_step sound goes_on h stored,
    drained_step sound stored goes_on h drained⟩

/-- In a session without the steps that upset `unfinished_count`, `dispose` drops all
futures that are alive. -/
theorem counted_disposes {config : List StaticParams} {s₀ s s₁ : Wheel} {es : List Event}
    (fresh : Fresh s₀) (opened : Opened config s₀) (run : exec step s₀ es = some s)
    (safe : Along step (fun s e _ => s.keepsUnfinished e = true) s₀ es)
    (begun : s.step .drop = some s₁) : Disposes s s₁ := by
  obtain ⟨sound, counted, -⟩ := unfinished_run fresh run safe
  have drained := drained_run fresh run safe
  refine (disposes_iff (opened_run opened run).1 begun).mpr ?_
  by_cases zero : s.alg.unfinishedCount = 0
  · right
    intro k
    cases found : s.get k with
    | none => exact value_past (List.getElem?_eq_none_iff.mp found)
    | some t =>
      refine drained.ended k t found ?_
      have none : s.tasks.countP StaticFuture.unended = 0 := by
        have := counted.count
        omega
      have passed := List.countP_eq_zero.mp none t (List.mem_of_getElem? found)
      simpa [StaticFuture.unended] using passed
  · exact .inl zero

end Wheel
end Juggle.St
