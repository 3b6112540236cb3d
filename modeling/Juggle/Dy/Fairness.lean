import Juggle.Dy.Invariant

/-! Fairness of the sweep. A task polled in a call of `beat_once` is behind the cursor
for the rest of it; a task that has work is ahead of the cursor until its turn comes. -/
namespace Juggle.Dy
open Juggle.Utils Juggle.Runs

namespace Pc

/-- The running sweep, if there is one, does not come to this key any more. -/
def Passed (k : TaskKey) : Pc → Prop
  | .sweep _ key => k < key
  | .chosen _ key _ => k < key
  | .polling _ key _ => k ≤ key
  | .removing _ key _ => k ≤ key
  | .dropping _ key _ => k ≤ key
  | _ => True

/-- A sweep is running and still has to come to this key. -/
def Ahead (k : TaskKey) : Pc → Prop
  | .sweep b key => key ≤ k ∧ k < b.cap
  | .chosen b key _ => key < k ∧ k < b.cap
  | .polling b key _ => key < k ∧ k < b.cap
  | .removing b key _ => key < k ∧ k < b.cap
  | .dropping b key _ => key < k ∧ k < b.cap
  | _ => False

/-- The last call of `beat_once` has come to the end of its range. -/
def swept : Pc → Bool
  | .sweep b key => decide (b.cap ≤ key)
  | .chosen _ _ _ => false
  | .polling _ _ _ => false
  | .removing _ _ _ => false
  | .dropping _ _ _ => false
  | _ => true

end Pc

namespace Wheel

/-- The step is the call of `poll_local` on this task. -/
def polls (tid : Tid) (s : Wheel) : Event → Bool
  | .run =>
    match s.pc with
    | .chosen _ _ t => decide (t = tid)
    | _ => false
  | _ => false

/-- The step is the visit of the sweep at this key. -/
def reaches (k : TaskKey) (s : Wheel) : Event → Bool
  | .run =>
    match s.pc with
    | .sweep b key => decide (key = k) && decide (key < b.cap)
    | _ => false
  | _ => false

/-- The task is registered at this key with stop reason `None` and is runnable. -/
def Eligible (k : TaskKey) (tid : Tid) (s : Wheel) : Prop :=
  ∃ task, s.get k = some task ∧ task.tid = tid ∧ task.stopReason = .none ∧ task.runnable = true

instance (k : TaskKey) (tid : Tid) (s : Wheel) : Decidable (Eligible k tid s) :=
  decidable_of_iff ((s.get k).any fun task =>
      task.tid = tid ∧ task.stopReason = .none ∧ task.runnable = true) (by
    simp only [Option.any_eq_true, decide_eq_true_eq]
    exact Iff.rfl)

def calm (_ : Wheel) : Event → Bool
  | .panic => false
  | _ => true

section Once
variable {s s' : Wheel} {e : Event} {k : TaskKey} {tid : Tid}

theorem polls_chosen (h : s.polls tid e = true) : e = .run ∧ ∃ b key, s.pc = .chosen b key tid := by
  cases e with
  | run =>
    cases pc : s.pc with
    | chosen b key t =>
      simp only [polls, pc, decide_eq_true_eq] at h
      exact ⟨rfl, b, key, by rw [h]⟩
    | _ => simp [polls, pc] at h
  | _ => simp [polls] at h

/-- In a reachable state the call of `poll_local` does run the task. -/
theorem polls_begins (con : Consistent s) (h : s.step e = some s') (polled : s.polls tid e = true) :
    ∃ b key, s'.pc = .polling b key tid := by
  obtain ⟨rfl, b, key, pc⟩ := polls_chosen polled
  cases step_move con.wf h with
  | pollBegin b' key' tid' event pc' pc'' beats =>
    rw [pc] at pc'
    cases pc'
    exact ⟨_, key, pc''⟩
  | broken event lost pc' beats => exact (con.unbroken lost).elim
  | stay pc' beats quiet => exact absurd rfl quiet
  | leave v pc' pc'' beats quiet => exact absurd rfl quiet
  | begins second event begins pc' beats =>
    cases begins <;> simp_all
  | _ => simp_all

theorem passed_step (move : Move s e s') (same : s'.beats = s.beats) (behind : s.pc.Passed k) :
    s'.pc.Passed k := by
  cases move with
  | stay pc' beats quiet => exact pc' ▸ behind
  | leave v pc pc' beats quiet => rw [pc']; trivial
  | note b key tid c event pc pc' beats =>
    rw [pc] at behind
    rw [pc']
    exact behind
  | enter w event pc pc' beats => rw [pc']; trivial
  | begins second event begins pc' beats => omega
  | skip b key event pc inside rest pc' beats =>
    rw [pc] at behind
    rw [pc']
    exact Nat.lt_succ_of_lt behind
  | choose b key task event pc inside found reason runnable pc' beats =>
    rw [pc] at behind
    rw [pc']
    exact behind
  | condemn b key task event pc inside found reason pc' beats =>
    rw [pc] at behind
    rw [pc']
    exact Nat.le_of_lt behind
  | ended b key event pc past ended beats =>
    cases pc' : s'.pc <;> rw [pc'] at ended <;> trivial
  | pollBegin b key tid event pc pc' beats =>
    rw [pc] at behind
    rw [pc']
    exact Nat.le_of_lt behind
  | pending b key tid event pc pc' beats =>
    rw [pc] at behind
    rw [pc']
    exact Nat.lt_succ_of_le behind
  | ready b key tid event pc pc' beats =>
    rw [pc] at behind
    rw [pc']
    exact behind
  | removed b key tid tid' event pc pc' beats =>
    rw [pc] at behind
    rw [pc']
    exact behind
  | dropped b key tid event pc pc' beats =>
    rw [pc] at behind
    rw [pc']
    exact Nat.lt_succ_of_le behind
  | answer finished event pc pc' beats => rw [pc']; trivial
  | unwound event pc' beats => rw [pc']; trivial
  | broken event lost pc' beats => rw [pc']; trivial

/-- The task was polled by the running sweep: wherever it is now, the sweep is past it. -/
structure Served (k : TaskKey) (tid : Tid) (s : Wheel) : Prop where
  place : ∀ j task, s.get j = some task → task.tid = tid → j = k
  old : tid < s.nextTid
  behind : s.pc.Passed k

theorem served_step (con : Consistent s) (served : Served k tid s) (h : s.step e = some s')
    (same : s'.beats = s.beats) : Served k tid s' := by
  have change := step_change con.wf h
  refine ⟨?_, Nat.lt_of_lt_of_le served.old change.nextTid_le,
    passed_step (step_move con.wf h) same served.behind⟩
  intro j task' found identity
  rcases (change.look j).origin found with ⟨task, before, eq⟩ | ⟨params, _, _, _, new, _⟩
  · exact served.place j task before (eq.trans identity)
  · rw [new] at identity
    exact absurd served.old (by rw [← identity]; exact Nat.lt_irrefl _)

theorem served_not_polled (con : Consistent s) (served : Served k tid s) :
    s.polls tid e = false := by
  by_contra polled
  obtain ⟨_, b, key, pc⟩ := polls_chosen (by simpa using polled)
  obtain ⟨task, found, identity⟩ := con.subject key tid (by rw [pc]; rfl)
  have behind := served.behind
  rw [pc, ← served.place key task found identity] at behind
  exact Nat.lt_irrefl _ behind

theorem polled_served (con : Consistent s) (h : s.step e = some s') (polled : s.polls tid e = true) :
    (∃ k, Served k tid s') ∧ s'.beats = s.beats := by
  have con' := step_consistent con h
  obtain ⟨b, key, pc'⟩ := polls_begins con h polled
  obtain ⟨task, found, identity⟩ := con'.subject key tid (by rw [pc']; rfl)
  refine ⟨⟨key, ?_, ?_, ?_⟩, ?_⟩
  · intro j other here eq
    exact con'.unique j key other task here found (eq.trans identity.symm)
  · exact identity ▸ con'.old key task found
  · rw [pc']
    exact Nat.le_refl key
  · cases step_move con.wf h with
    | begins second event begins pc'' beats => rw [pc'] at pc''; cases pc''
    | _ => assumption

theorem beats_step (move : Move s e s') : s'.beats = s.beats ∨ s'.beats = s.beats + 1 := by
  cases move with
  | begins second event begins pc' beats => exact Or.inr beats
  | _ => exact Or.inl (by assumption)

/-- The polls of one task are no more than the sweeps they are spread over. -/
theorem polls_le_beats (tid : Tid) {s t : Wheel} {es : List Event} (con : Consistent s)
    (run : exec step s es = some t) :
    tally step (polls tid) s es + s.beats ≤ t.beats + 1 ∧
      ∀ k, Served k tid s → tally step (polls tid) s es + s.beats ≤ t.beats := by
  induction es generalizing s with
  | nil =>
    cases Option.some.inj run
    exact ⟨by simp [tally], fun k served => by simp [tally]⟩
  | cons e es ih =>
    obtain ⟨r, hr, rest⟩ := exec_cons run
    obtain ⟨most, later⟩ := ih (step_consistent con hr) rest
    cases polled : s.polls tid e with
    | true =>
      obtain ⟨⟨k, served⟩, same⟩ := polled_served con hr polled
      have bound := later k served
      refine ⟨by simp only [tally, hr, polled]; simp; omega, fun k' before => ?_⟩
      rw [served_not_polled con before] at polled
      cases polled
    | false =>
      rcases beats_step (step_move con.wf hr) with same | next
      · refine ⟨by simp only [tally, hr, polled]; simp; omega, fun k served => ?_⟩
        have bound := later k (served_step con served hr same)
        simp only [tally, hr, polled]
        simp
        omega
      · refine ⟨by simp only [tally, hr, polled]; simp; omega, fun k served => ?_⟩
        simp only [tally, hr, polled]
        simp
        omega

end Once

section Reached
variable {s s' : Wheel} {e : Event} {k : TaskKey} {tid : Tid}

theorem eligible_hasWork (eligible : Eligible k tid s) : s.hasWork k = true := by
  obtain ⟨task, found, identity, reason, runnable⟩ := eligible
  simp [hasWork, found, reason, runnable, StopReason.isPollAllowed]

/-- One step brings the sweep nearer to a key with an eligible task or decides to poll it. -/
theorem ahead_step (con : Consistent s) (h : s.step e = some s') (quiet : s.calm e = true)
    (eligible : Eligible k tid s) (ahead : s.pc.Ahead k) :
    s'.beats = s.beats ∧ ((s.reaches k e = false ∧ s'.pc.Ahead k) ∨
      (s.reaches k e = true ∧ ∃ b, s'.pc = .chosen b k tid)) := by
  cases step_move con.wf h with
  | stay pc' beats other =>
    have no : s.reaches k e = false := by
      cases e <;> first | rfl | exact absurd rfl other
    exact ⟨beats, Or.inl ⟨no, pc' ▸ ahead⟩⟩
  | leave v pc pc' beats other => rw [pc] at ahead; exact ahead.elim
  | note b key tid c event pc pc' beats =>
    rw [pc] at ahead
    exact ⟨beats, Or.inl ⟨by rw [event]; rfl, by rw [pc']; exact ahead⟩⟩
  | enter w event pc pc' beats =>
    rcases pc with pc | ⟨v, pc⟩ <;> rw [pc] at ahead <;> exact ahead.elim
  | begins second event begins pc' beats =>
    cases begins with
    | clear pc => rw [pc] at ahead; exact ahead.elim
    | register pc => rw [pc] at ahead; exact ahead.elim
    | again b key pc past first busy =>
      rw [pc] at ahead
      exact absurd (Nat.le_trans past ahead.1) (Nat.not_le_of_lt ahead.2)
  | skip b key event pc inside rest pc' beats =>
    rw [pc] at ahead
    have other : key ≠ k := by
      rintro rfl
      rw [eligible_hasWork eligible] at rest
      cases rest
    refine ⟨beats, Or.inl ⟨by simp [reaches, event, pc, other], ?_⟩⟩
    rw [pc']
    exact ⟨Nat.lt_of_le_of_ne ahead.1 other, ahead.2⟩
  | choose b key task event pc inside found reason runnable pc' beats =>
    rw [pc] at ahead
    by_cases here : key = k
    · subst here
      obtain ⟨task', found', identity, _⟩ := eligible
      rw [found] at found'
      cases found'
      refine ⟨beats, Or.inr ⟨by simp [reaches, event, pc, inside], b, ?_⟩⟩
      rw [pc', identity]
    · refine ⟨beats, Or.inl ⟨by simp [reaches, event, pc, here], ?_⟩⟩
      rw [pc']
      exact ⟨Nat.lt_of_le_of_ne ahead.1 here, ahead.2⟩
  | condemn b key task event pc inside found reason pc' beats =>
    rw [pc] at ahead
    have other : key ≠ k := by
      rintro rfl
      obtain ⟨task', found', _, free, _⟩ := eligible
      rw [found] at found'
      cases found'
      rw [reason] at free
      cases free
    refine ⟨beats, Or.inl ⟨by simp [reaches, event, pc, other], ?_⟩⟩
    rw [pc']
    exact ⟨Nat.lt_of_le_of_ne ahead.1 other, ahead.2⟩
  | ended b key event pc past ended beats =>
    rw [pc] at ahead
    exact absurd (Nat.le_trans past ahead.1) (Nat.not_le_of_lt ahead.2)
  | pollBegin b key tid event pc pc' beats =>
    rw [pc] at ahead
    exact ⟨beats, Or.inl ⟨by simp [reaches, event, pc], by rw [pc']; exact ahead⟩⟩
  | pending b key tid event pc pc' beats =>
    rw [pc] at ahead
    exact ⟨beats, Or.inl ⟨by rw [event]; rfl, by rw [pc']; exact ahead⟩⟩
  | ready b key tid event pc pc' beats =>
    rw [pc] at ahead
    exact ⟨beats, Or.inl ⟨by rw [event]; rfl, by rw [pc']; exact ahead⟩⟩
  | removed b key tid tid' event pc pc' beats =>
    rw [pc] at ahead
    exact ⟨beats, Or.inl ⟨by simp [reaches, event, pc], by rw [pc']; exact ahead⟩⟩
  | dropped b key tid event pc pc' beats =>
    rw [pc] at ahead
    exact ⟨beats, Or.inl ⟨by rw [event]; rfl, by rw [pc']; exact ahead⟩⟩
  | answer finished event pc pc' beats => rw [pc] at ahead; exact ahead.elim
  | unwound event pc' beats => rw [event] at quiet; cases quiet
  | broken event lost pc' beats => exact (con.unbroken lost).elim

/-- The decision to poll a task stands until the poll. -/
theorem chosen_kept {b : Beat} (con : Consistent s) (h : s.step e = some s')
    (pc : s.pc = .chosen b k tid) (unpolled : s.polls tid e = false) :
    s'.pc = .chosen b k tid ∧ s'.beats = s.beats := by
  have waits : e ≠ .run := by
    rintro rfl
    simp [polls, pc] at unpolled
  cases step_move con.wf h with
  | stay pc' beats quiet => exact ⟨pc'.trans pc, beats⟩
  | unwound event pc' beats =>
    subst event
    simp [step, panic, pc] at h
  | _ => simp_all

/-- The sweep is on its way to an eligible task or has just decided to poll it. -/
def Coming (k : TaskKey) (tid : Tid) (s : Wheel) : Prop :=
  s.pc.Ahead k ∨ ∃ b, s.pc = .chosen b k tid

theorem Coming.not_swept (coming : Coming k tid s) : s.pc.swept = false := by
  by_contra whole
  have swept : s.pc.swept = true := by simpa using whole
  rcases coming with ahead | ⟨b, pc⟩
  · cases pc : s.pc with
    | sweep b key =>
      rw [pc] at ahead swept
      exact absurd (Nat.le_trans (of_decide_eq_true swept) ahead.1) (Nat.not_le_of_lt ahead.2)
    | chosen | polling | removing | dropping => rw [pc] at swept; cases swept
    | _ => rw [pc] at ahead; exact ahead
  · rw [pc] at swept
    cases swept

/-- As long as the task is not polled, the sweep does not come to its end. -/
theorem coming_run {s t : Wheel} {es : List Event} (con : Consistent s)
    (run : exec step s es = some t)
    (silent : Along step (fun s e _ => s.polls tid e = false ∧ s.calm e = true) s es)
    (coming : (Until step (Eligible k tid) (reaches k) s es ∧ s.pc.Ahead k) ∨
      ∃ b, s.pc = .chosen b k tid) : Coming k tid t := by
  induction es generalizing s with
  | nil =>
    cases Option.some.inj run
    exact coming.imp And.right id
  | cons e es ih =>
    obtain ⟨r, hr, rest⟩ := exec_cons run
    obtain ⟨⟨unpolled, quiet⟩, later⟩ := silent r hr
    apply ih (step_consistent con hr) rest later
    rcases coming with ⟨eligible, ahead⟩ | ⟨b, pc⟩
    · rcases (ahead_step con hr quiet eligible.1 ahead).2 with ⟨far, ahead'⟩ | ⟨near, chosen⟩
      · exact Or.inl ⟨eligible.2 far r hr, ahead'⟩
      · exact Or.inr chosen
    · exact Or.inr ⟨b, (chosen_kept con hr pc unpolled).1⟩

/-- While an eligible task waits for its poll, at most one more sweep begins, and that
sweep is still to come to it. -/
def Lag (k : TaskKey) (tid : Tid) (n : Nat) (s : Wheel) : Prop :=
  s.beats = n ∨ (s.beats = n + 1 ∧ Coming k tid s)

theorem lag_step {n : Nat} (con : Consistent s) (h : s.step e = some s') (quiet : s.calm e = true)
    (eligible : Eligible k tid s) (unpolled : s.polls tid e = false) (lag : Lag k tid n s) :
    Lag k tid n s' := by
  rcases lag with same | ⟨next, ahead | ⟨b, pc⟩⟩
  · cases step_move con.wf h with
    | begins second event begins pc' beats =>
      obtain ⟨task, found, _⟩ := eligible
      refine Or.inr ⟨by rw [beats, same], Or.inl ?_⟩
      rw [pc']
      exact ⟨Nat.zero_le k, ChunkSlab.get_lt_capacity found⟩
    | _ => exact Or.inl (by simp_all)
  · obtain ⟨beats, far | near⟩ := ahead_step con h quiet eligible ahead
    · exact Or.inr ⟨beats.trans next, Or.inl far.2⟩
    · exact Or.inr ⟨beats.trans next, Or.inr near.2⟩
  · obtain ⟨pc', beats⟩ := chosen_kept con h pc unpolled
    exact Or.inr ⟨beats.trans next, Or.inr ⟨b, pc'⟩⟩

theorem lag_run {s t : Wheel} {es : List Event} (con : Consistent s)
    (run : exec step s es = some t)
    (calms : Along step (fun s e _ => s.calm e = true) s es)
    (eligible : Until step (Eligible k tid) (polls tid) s es)
    (silent : Along step (fun s e _ => s.polls tid e = false) s es) :
    Lag k tid s.beats t := by
  have waits := along_and (until_along eligible silent) calms
  have kept : ∀ r e u, Consistent r ∧ Lag k tid s.beats r → step r e = some u →
      ((Eligible k tid r ∧ Eligible k tid u ∧ r.polls tid e = false) ∧ r.calm e = true) →
      Consistent u ∧ Lag k tid s.beats u :=
    fun r e u inv hr cond => ⟨step_consistent inv.1 hr,
      lag_step inv.1 hr cond.2 cond.1.1 cond.1.2.2 inv.2⟩
  have start : Consistent s ∧ Lag k tid s.beats s := ⟨con, Or.inl rfl⟩
  exact (invariant_along kept start run waits).2

end Reached

section Rounds
variable {s t : Wheel} {es : List Event}

/-- In one call of `beat_once` no task is polled twice. -/
theorem polled_at_most_once (con : Consistent s) (run : exec step s es = some t)
    (same : t.beats = s.beats) (tid : Tid) : tally step (polls tid) s es ≤ 1 := by
  have bound := (polls_le_beats tid con run).1
  omega

/-- A task that has work when its key is reached is polled in that call of `beat_once`. -/
theorem polled_at_least_once {b : Beat} {k : TaskKey} {tid : Tid} (con : Consistent s)
    (run : exec step s es = some t) (calms : Along step (fun s e _ => s.calm e = true) s es)
    (begin : s.pc = .sweep b 0) (swept : t.pc.swept = true)
    (eligible : Until step (Eligible k tid) (reaches k) s es) :
    0 < tally step (polls tid) s es := by
  apply tally_pos_of_not_along run
  intro silent
  have here : Eligible k tid s := by
    cases es with
    | nil => exact eligible
    | cons e es => exact eligible.1
  obtain ⟨task, found, _⟩ := here
  have ahead : s.pc.Ahead k := by
    rw [begin]
    refine ⟨Nat.zero_le k, ?_⟩
    rw [con.range b begin]
    exact ChunkSlab.get_lt_capacity found
  have coming := coming_run con run (along_and silent calms) (Or.inl ⟨eligible, ahead⟩)
  exact absurd swept (by rw [coming.not_swept]; exact nofun)

/-- A task that stays eligible is polled before any other is polled for the third time. -/
theorem polled_between {u : Wheel} {e : Event} {k : TaskKey} {tid other : Tid} (con : Consistent s)
    (run : exec step s es = some t) (calms : Along step (fun s e _ => s.calm e = true) s es)
    (eligible : Until step (Eligible k other) (polls other) s es)
    (two : tally step (polls tid) s es = 2) (third : t.polls tid e = true)
    (next : step t e = some u) : 0 < tally step (polls other) s es := by
  apply tally_pos_of_not_along run
  intro silent
  have lag := lag_run con run calms eligible silent
  have most : t.beats ≤ s.beats + 1 := by
    rcases lag with same | ⟨later, _⟩
    · omega
    · omega
  have last : exec step t [e] = some u := by simp [exec, next]
  have three : tally step (polls tid) s (es ++ [e]) = 3 := by
    simp [tally_append run, two, tally, next, third]
  have bound := (polls_le_beats tid con (exec_append run last)).1
  have same := (polled_served (run_consistent con run) next third).2
  omega

/-- The round robin is fair: a call of `beat_once` polls no task twice and every task that
has work when its turn comes once; a task that stays eligible is polled before any other
is polled for the third time. -/
theorem round_robin_fair (reach : Reachable step (fun s => s = new) s)
    (run : exec step s es = some t) (calms : Along step (fun s e _ => s.calm e = true) s es) :
    (t.beats = s.beats → ∀ tid, tally step (polls tid) s es ≤ 1) ∧
    (∀ b k tid, s.pc = .sweep b 0 → t.beats = s.beats → t.pc.swept = true →
      Until step (Eligible k tid) (reaches k) s es → tally step (polls tid) s es = 1) ∧
    (∀ k tid other e u, Until step (Eligible k other) (polls other) s es →
      tally step (polls tid) s es = 2 → t.polls tid e = true → step t e = some u →
      0 < tally step (polls other) s es) := by
  have con := reachable_consistent reach
  refine ⟨fun same tid => polled_at_most_once con run same tid, ?_, ?_⟩
  · intro b k tid begin same swept eligible
    have most := polled_at_most_once con run same tid
    have least := polled_at_least_once con run calms begin swept eligible
    omega
  · intro k tid other e u eligible two third next
    exact polled_between con run calms eligible two third next

/-- Two tasks that wake themselves in every poll. -/
def started : List Event :=
  [.call (.register ⟨false, .none⟩), .call (.register ⟨false, .none⟩), .poll 7, .run]

def turns : List Event :=
  [.run, .run, .call (.wake ⟨0, 0⟩), .done false, .run, .run, .call (.wake ⟨1, 1⟩), .done false] ++
  List.replicate 14 .run

def twoTurns : List Event := turns ++ [.run] ++ turns ++ [.run, .run]

theorem round_robin_fair_turns :
    tally step (polls 1) (last step new started) turns = 1 ∧
    0 < tally step (polls 1) (last step new started) twoTurns := by
  have reach : Reachable step (fun s => s = new) (last step new started) :=
    ⟨new, started, rfl, exec_last (by decide +kernel)⟩
  have turn : exec step (last step new started) turns = some (last step (last step new started) turns) :=
    exec_last (by decide +kernel)
  have two : exec step (last step new started) twoTurns =
      some (last step (last step new started) twoTurns) := exec_last (by decide +kernel)
  have enabled : (step (last step (last step new started) twoTurns) .run).isSome = true := by
    decide +kernel
  obtain ⟨u, next⟩ := Option.isSome_iff_exists.mp enabled
  constructor
  · exact (round_robin_fair reach turn (by decide +kernel)).2.1 ⟨false, false, 16, false⟩ 1 1
      (by decide +kernel) (by decide +kernel) (by decide +kernel) (by decide +kernel)
  · exact (round_robin_fair reach two (by decide +kernel)).2.2 1 0 1 .run _
      (by decide +kernel) (by decide +kernel) (by decide +kernel) next

end Rounds

end Wheel
end Juggle.Dy
