import Mathlib.Algebra.Order.Group.Multiset
import Juggle.Lib.Count
import Juggle.St.Marker

/-! What becomes of the values of a marked cell. A put learns of the one take that met it
and hands its own value back; every value that was written has one owner at any time. -/
namespace Juggle.St.Marker
open Juggle.Runs Juggle.Count

variable {T : Type}

/-- The take left the value to the put that began at the time `n`. -/
def Record.leftTo (n : Nat) (r : Record T) : Bool :=
  match r.ret, r.met with
  | .take .concurrentPut, some m => m == n
  | _, _ => false

def takesLeftTo (s : State T) (n : Nat) : Nat := s.done.countP (Record.leftTo n)

section Meetings
variable {s t : State T} {i : Nat} {th : Thread T}

/-- Calls are told apart by their beginnings. -/
structure Dated (s : State T) : Prop where
  early : ∀ i a, s.active i = some a → a.began < s.clock
  distinct : ∀ i j a b, s.active i = some a → s.active j = some b → a.began = b.began → i = j
  retired : ∀ i a r, s.active i = some a → r ∈ s.done → r.began ≠ a.began
  ended : ∀ r ∈ s.done, r.began ≤ r.ended ∧ r.ended < s.clock

/-- The mark says that a take has met the put that is inside. -/
def Phase.met (mark : Nat) (phase : Phase T) : Bool :=
  phase.inside && mark == putting ||| marking

/-- A put that is inside has been met by one take if the mark says so, any other call by none. -/
structure Counted (s : State T) : Prop where
  running : ∀ i a, s.active i = some a →
    takesLeftTo s a.began = weight (a.phase.met s.mark)
  ended : ∀ r ∈ s.done, takesLeftTo s r.began = weight r.ret.duringPut
  past : ∀ q ∈ s.done, ∀ n, q.leftTo n = true → n ≤ q.ended
  before : ∀ q ∈ s.done, ∀ r ∈ s.done, q.leftTo r.began = true → q.ended ≤ r.ended
  sound : ∀ r ∈ s.done, r.ret ≠ .assertion
  answered : ∀ q ∈ s.done, q.ret = .take .concurrentPut →
    (∃ i a, s.active i = some a ∧ a.phase.inside = true ∧ q.leftTo a.began = true) ∨
      ∃ r ∈ s.done, q.leftTo r.began = true

theorem begin_dated (inv : Dated s) {a : Active T}
    (same : ∀ j, t.active j = if j = i then some a else s.active j) (clock : t.clock = s.clock + 1)
    (done : t.done = s.done) (now : a.began = s.clock) : Dated t := by
  have before : ∀ j b, t.active j = some b → (j = i ∧ b = a) ∨ (j ≠ i ∧ s.active j = some b) := by
    intro j b running
    rw [same j] at running
    by_cases mine : j = i
    · rw [if_pos mine] at running
      exact .inl ⟨mine, (Option.some.inj running).symm⟩
    · rw [if_neg mine] at running
      exact .inr ⟨mine, running⟩
  constructor
  · intro j b running
    rcases before j b running with ⟨-, rfl⟩ | ⟨-, old⟩
    · omega
    · have := inv.early j b old
      omega
  · intro j k b c first second equal
    rcases before j b first with ⟨rfl, rfl⟩ | ⟨-, oldB⟩ <;>
      rcases before k c second with ⟨rfl, rfl⟩ | ⟨-, oldC⟩
    · rfl
    · have := inv.early k c oldC
      omega
    · have := inv.early j b oldB
      omega
    · exact inv.distinct j k b c oldB oldC equal
  · intro j b r running member
    rw [done] at member
    rcases before j b running with ⟨-, rfl⟩ | ⟨-, old⟩
    · have := inv.ended r member
      omega
    · exact inv.retired j b r old member
  · intro r member
    have := inv.ended r (done ▸ member)
    omega

theorem advance_dated (inv : Dated s) {a : Active T} {phase : Phase T} (here : s.active i = some a)
    (same : ∀ j, t.active j = if j = i then some { a with phase } else s.active j)
    (clock : t.clock = s.clock + 1) (done : t.done = s.done) : Dated t := by
  have before : ∀ j b, t.active j = some b → ∃ c, s.active j = some c ∧ c.began = b.began := by
    intro j b running
    rw [same j] at running
    by_cases mine : j = i
    · rw [if_pos mine] at running
      cases Option.some.inj running
      exact ⟨a, mine ▸ here, rfl⟩
    · rw [if_neg mine] at running
      exact ⟨b, running, rfl⟩
  constructor
  · intro j b running
    obtain ⟨c, old, began⟩ := before j b running
    have := inv.early j c old
    omega
  · intro j k b c first second equal
    obtain ⟨b', oldB, beganB⟩ := before j b first
    obtain ⟨c', oldC, beganC⟩ := before k c second
    exact inv.distinct j k b' c' oldB oldC (by omega)
  · intro j b r running member
    obtain ⟨c, old, began⟩ := before j b running
    exact began ▸ inv.retired j c r old (done ▸ member)
  · intro r member
    have := inv.ended r (done ▸ member)
    omega

theorem finish_active (same : ∀ j, t.active j = if j = i then none else s.active j) {j : Nat}
    {b : Active T} (running : t.active j = some b) : j ≠ i ∧ s.active j = some b := by
  rw [same j] at running
  by_cases mine : j = i
  · rw [if_pos mine] at running
    cases running
  · rw [if_neg mine] at running
    exact ⟨mine, running⟩

theorem mem_done_snoc {q r : Record T} (done : t.done = s.done ++ [r]) (member : q ∈ t.done) :
    q ∈ s.done ∨ q = r := by
  rw [done] at member
  exact (List.mem_append.mp member).imp_right List.mem_singleton.mp

theorem finish_dated (inv : Dated s) {a : Active T} (here : s.active i = some a)
    (same : ∀ j, t.active j = if j = i then none else s.active j) (clock : t.clock = s.clock + 1)
    {r : Record T} (done : t.done = s.done ++ [r]) (began : r.began = a.began)
    (ended : r.ended = s.clock) : Dated t := by
  constructor
  · intro j b running
    have := inv.early j b (finish_active same running).2
    omega
  · intro j k b c first second
    exact inv.distinct j k b c (finish_active same first).2 (finish_active same second).2
  · intro j b q running member
    obtain ⟨other, old⟩ := finish_active same running
    rcases mem_done_snoc done member with past | rfl
    · exact inv.retired j b q old past
    · rw [began]
      exact fun equal => other (inv.distinct j i b a old here equal.symm)
  · intro q member
    rcases mem_done_snoc done member with past | rfl
    · have := inv.ended q past
      omega
    · have := inv.early i a here
      omega

theorem step_dated (excl : Exclusive s) (inv : Dated s) (taken : step s i = some t) : Dated t := by
  obtain ⟨th, found, move⟩ := step_move excl taken
  have here := active_of_found found
  cases move with
  | begin waits next => exact begin_dated inv (active_set found rfl rfl) rfl rfl rfl
  | refuse active | meet active | leave active =>
    exact finish_dated inv (here.trans active) (active_set found rfl rfl) rfl rfl rfl rfl
  | enter active | write active | detour active | takeOut active =>
    exact advance_dated inv (here.trans active) (active_set found rfl rfl) rfl rfl

theorem takesLeftTo_snoc {r : Record T} (done : t.done = s.done ++ [r]) (n : Nat) :
    takesLeftTo t n = takesLeftTo s n + weight (r.leftTo n) := by
  rw [takesLeftTo, done, List.countP_append, List.countP_singleton]
  rfl

theorem takesLeftTo_eq_zero {n : Nat} (none : ∀ q ∈ s.done, q.leftTo n = false) :
    takesLeftTo s n = 0 :=
  List.countP_eq_zero.mpr (fun q member => by simp [none q member])

theorem takesLeftTo_of_done (done : t.done = s.done) (n : Nat) : takesLeftTo t n = takesLeftTo s n := by
  rw [takesLeftTo, done, takesLeftTo]

/-- Where nothing returns, only the calls that are running have to be looked at. -/
theorem Counted.unfinished (inv : Counted s) (done : t.done = s.done)
    (running : ∀ j b, t.active j = some b → takesLeftTo s b.began = weight (b.phase.met t.mark))
    (inside : ∀ j b, s.active j = some b → b.phase.inside = true →
      ∃ c, t.active j = some c ∧ c.phase.inside = true ∧ c.began = b.began) : Counted t := by
  constructor
  · intro j b active
    rw [takesLeftTo_of_done done]
    exact running j b active
  · intro r member
    rw [takesLeftTo_of_done done]
    exact inv.ended r (done ▸ member)
  · exact fun q member => inv.past q (done ▸ member)
  · exact fun q member r memberR => inv.before q (done ▸ member) r (done ▸ memberR)
  · exact fun r member => inv.sound r (done ▸ member)
  · intro q member took
    rcases inv.answered q (done ▸ member) took with ⟨j, b, active, within, left⟩ | ⟨r, past, left⟩
    · obtain ⟨c, active', within', began⟩ := inside j b active within
      exact .inl ⟨j, c, active', within', began ▸ left⟩
    · exact .inr ⟨r, done ▸ past, left⟩

theorem advance_counted (inv : Counted s) {a : Active T} {phase : Phase T}
    (here : s.active i = some a)
    (same : ∀ j, t.active j = if j = i then some { a with phase } else s.active j)
    (done : t.done = s.done) (still : a.phase.inside = true → phase.inside = true)
    (mine : phase.met t.mark = a.phase.met s.mark)
    (others : ∀ j b, j ≠ i → s.active j = some b → b.phase.met t.mark = b.phase.met s.mark) :
    Counted t := by
  refine inv.unfinished done (fun j b running => ?_) (fun j b running inside => ?_)
  · rw [same j] at running
    by_cases own : j = i
    · rw [if_pos own] at running
      cases Option.some.inj running
      rw [inv.running i a here, mine]
    · rw [if_neg own] at running
      rw [inv.running j b running, others j b own running]
  · by_cases own : j = i
    · subst own
      cases running.symm.trans here
      exact ⟨_, (same j).trans (if_pos rfl), still inside, rfl⟩
    · exact ⟨b, (same j).trans ((if_neg own).trans running), inside, rfl⟩

/-- Nobody was left to a call that begins now. -/
theorem begin_counted (inv : Counted s) (dated : Dated s) {a : Active T} (waits : s.active i = none)
    (same : ∀ j, t.active j = if j = i then some a else s.active j) (mark : t.mark = s.mark)
    (done : t.done = s.done) (outside : a.phase.inside = false) (now : a.began = s.clock) :
    Counted t := by
  refine inv.unfinished done (fun j b running => ?_) (fun j b running inside => ?_)
  · rw [same j] at running
    rw [mark]
    by_cases own : j = i
    · rw [if_pos own] at running
      cases Option.some.inj running
      have unmet : a.phase.met s.mark = false := by simp [Phase.met, outside]
      rw [unmet]
      refine takesLeftTo_eq_zero (fun q member => ?_)
      cases left : q.leftTo a.began with
      | false => rfl
      | true =>
        have := inv.past q member a.began left
        have := (dated.ended q member).2
        omega
    · rw [if_neg own] at running
      exact inv.running j b running
  · have other : j ≠ i := by
      rintro rfl
      cases waits.symm.trans running
    exact ⟨b, (same j).trans ((if_neg other).trans running), inside, rfl⟩

/-- A call returns that has not met a put. -/
theorem finish_counted (inv : Counted s) (dated : Dated s) {a : Active T}
    (here : s.active i = some a) (same : ∀ j, t.active j = if j = i then none else s.active j) {r : Record T}
    (done : t.done = s.done ++ [r]) (began : r.began = a.began) (now : r.ended = s.clock)
    (unmet : r.met = none)
    (mine : r.ret.duringPut = a.phase.met s.mark) (sound : r.ret ≠ .assertion)
    (plain : r.ret ≠ .take .concurrentPut)
    (others : ∀ j b, j ≠ i → s.active j = some b → b.phase.met t.mark = b.phase.met s.mark) :
    Counted t := by
  have alone : ∀ n, r.leftTo n = false := by
    intro n
    rw [Record.leftTo, unmet]
    cases r.ret with
    | take result => cases result <;> rfl
    | put | assertion => rfl
  have count : ∀ n, takesLeftTo t n = takesLeftTo s n := by
    intro n
    rw [takesLeftTo_snoc done, alone, weight_false, Nat.add_zero]
  have members : ∀ q, q ∈ t.done → q ∈ s.done ∨ q = r := fun q => mem_done_snoc done
  constructor
  · intro j b running
    obtain ⟨other, old⟩ := finish_active same running
    rw [count, inv.running j b old, others j b other old]
  · intro q member
    rw [count]
    rcases members q member with past | rfl
    · exact inv.ended q past
    · rw [began, inv.running i a here, mine]
  · intro q member n left
    rcases members q member with past | rfl
    · exact inv.past q past n left
    · exact absurd ((alone n).symm.trans left) nofun
  · intro q member p memberP left
    rcases members q member with past | rfl
    · rcases members p memberP with pastP | rfl
      · exact inv.before q past p pastP left
      · have := (dated.ended q past).2
        omega
    · exact absurd ((alone p.began).symm.trans left) nofun
  · intro q member
    rcases members q member with past | rfl
    · exact inv.sound q past
    · exact sound
  · intro q member took
    rcases members q member with past | rfl
    · rcases inv.answered q past took with ⟨j, b, running, inside, left⟩ | ⟨p, before, left⟩
      · by_cases own : j = i
        · subst own
          cases running.symm.trans here
          exact .inr ⟨r, done ▸ List.mem_append_right _ (List.mem_singleton_self r), began ▸ left⟩
        · exact .inl ⟨j, b, (same j).trans ((if_neg own).trans running), inside, left⟩
      · exact .inr ⟨p, done ▸ List.mem_append_left _ before, left⟩
    · exact absurd took plain

/-- A take meets the put that is inside. -/
theorem meet_counted (excl : Exclusive s) (inv : Counted s) (dated : Dated s) {a : Active T}
    (here : s.active i = some a) (outside : a.phase.inside = false)
    (same : ∀ j, t.active j = if j = i then none else s.active j) (put : s.mark = putting)
    (met : t.mark = putting ||| marking) {call : Call T}
    (done : t.done = s.done ++
      [⟨i, call, .take .concurrentPut, a.began, s.clock, some s.holder⟩]) : Counted t := by
  obtain ⟨k, b, held, inside⟩ : ∃ k b, s.active k = some b ∧ b.phase.inside = true := by
    by_contra none
    simp only [not_exists, not_and, Bool.not_eq_true] at none
    have free := excl.free none
    rw [put] at free
    exact absurd free (by decide)
  have holder := (excl.holds k b held inside).2
  have apart : k ≠ i := by
    rintro rfl
    cases held.symm.trans here
    exact absurd (outside.symm.trans inside) nofun
  have kept : t.active k = some b := (same k).trans ((if_neg apart).trans held)
  have unmet : ∀ c : Active T, c.phase.met s.mark = false := by
    intro c
    have other : (putting == putting ||| marking) = false := by decide
    rw [Phase.met, put, other, Bool.and_false]
  have count : ∀ n, takesLeftTo t n = takesLeftTo s n + weight (b.began == n) := by
    intro n
    rw [takesLeftTo_snoc done, ← holder]
    rfl
  have elsewhere : ∀ {n}, n ≠ b.began → takesLeftTo t n = takesLeftTo s n := by
    intro n other
    rw [count, beq_false_of_ne (Ne.symm other), weight_false, Nat.add_zero]
  have mine : a.began ≠ b.began := fun equal => apart (dated.distinct k i b a held here equal.symm)
  have members : ∀ q, q ∈ t.done → q ∈ s.done ∨
      q = ⟨i, call, .take .concurrentPut, a.began, s.clock, some s.holder⟩ :=
    fun q => mem_done_snoc done
  constructor
  · intro j c running
    obtain ⟨-, old⟩ := finish_active same running
    by_cases own : j = k
    · subst own
      cases old.symm.trans held
      rw [count, inv.running j _ held, unmet, beq_self_eq_true, Phase.met, inside, met]
      rfl
    · have other : c.began ≠ b.began := fun equal => own (dated.distinct j k c b old held equal)
      have free : c.phase.inside = false := by
        cases inner : c.phase.inside with
        | false => rfl
        | true => exact absurd (excl.alone j k c b old held inner inside) own
      rw [elsewhere other, inv.running j c old, unmet, Phase.met, free, Bool.false_and]
  · intro r member
    rcases members r member with past | rfl
    · rw [elsewhere (dated.retired k b r held past)]
      exact inv.ended r past
    · rw [elsewhere mine, inv.running i a here, unmet]
      rfl
  · intro q member n left
    rcases members q member with past | rfl
    · exact inv.past q past n left
    · have early := dated.early k b held
      have same : s.holder = n := eq_of_beq left
      change n ≤ s.clock
      omega
  · intro q member r memberR left
    rcases members q member with past | rfl
    · rcases members r memberR with pastR | rfl
      · exact inv.before q past r pastR left
      · exact Nat.le_of_lt (dated.ended q past).2
    · rcases members r memberR with pastR | rfl
      · have same : s.holder = r.began := eq_of_beq left
        exact absurd (same.symm.trans holder) (dated.retired k b r held pastR)
      · exact Nat.le_refl _
  · intro r member
    rcases members r member with past | rfl
    · exact inv.sound r past
    · nofun
  · intro q member took
    rcases members q member with past | rfl
    · rcases inv.answered q past took with ⟨j, c, running, insideC, left⟩ | ⟨r, before, left⟩
      · have other : j ≠ i := by
          rintro rfl
          cases running.symm.trans here
          exact absurd (outside.symm.trans insideC) nofun
        exact .inl ⟨j, c, (same j).trans ((if_neg other).trans running), insideC, left⟩
      · exact .inr ⟨r, done ▸ List.mem_append_left _ before, left⟩
    · exact .inl ⟨k, b, kept, inside, beq_iff_eq.mpr holder⟩

theorem step_counted (excl : Exclusive s) (dated : Dated s) (inv : Counted s)
    (taken : step s i = some t) : Counted t := by
  obtain ⟨th, found, move⟩ := step_move excl taken
  have here := active_of_found found
  have outside_unmet : ∀ {c : Active T} (mark : Nat), c.phase.inside = false →
      c.phase.met mark = false := by
    intro c mark outside
    rw [Phase.met, outside, Bool.false_and]
  have others : ∀ {a : Active T} (mark : Nat), s.active i = some a → a.phase.inside = true →
      ∀ j b, j ≠ i → s.active j = some b → b.phase.met mark = b.phase.met s.mark := by
    intro a mark held inside j b other running
    have outside : b.phase.inside = false := by
      cases inner : b.phase.inside with
      | false => rfl
      | true => exact absurd (excl.alone j i b a running held inner inside) other
    rw [outside_unmet mark outside, outside_unmet s.mark outside]
  cases move with
  | @begin call todo waits next =>
    exact begin_counted inv dated (here.trans waits) (active_set found rfl rfl) rfl rfl
      (by cases call <;> rfl) rfl
  | @refuse a ret active outside refused busy =>
    obtain ⟨-, during, sound, plain⟩ := Outcome.refused_plain refused
    exact finish_counted inv dated (here.trans active) (active_set found rfl rfl) rfl rfl rfl rfl
      (during.trans (outside_unmet s.mark outside).symm) sound plain (fun _ _ _ _ => rfl)
  | meet active outside put =>
    exact meet_counted excl inv dated (here.trans active) outside (active_set found rfl rfl) put rfl rfl
  | @enter a phase mark active outside free inside allows empty alone =>
    refine advance_counted inv (here.trans active) (active_set found rfl rfl) rfl (fun _ => inside) ?_
      (fun j b other running => ?_)
    · have unmet : phase.met mark = false := by
        rw [Phase.met, beq_false_of_ne alone, Bool.and_false]
      exact unmet.trans (outside_unmet s.mark outside).symm
    · have free := excl.nobody_inside free j b running
      rw [outside_unmet _ free, outside_unmet _ free]
  | @write a value active phase =>
    have inside : a.phase.inside = true := by rw [phase]; rfl
    refine advance_counted inv (here.trans active) (active_set found rfl rfl) rfl (fun _ => rfl) ?_
      (others _ (here.trans active) inside)
    rw [phase]
    rfl
  | @detour a active phase met =>
    have inside : a.phase.inside = true := by rw [phase]; rfl
    refine advance_counted inv (here.trans active) (active_set found rfl rfl) rfl (fun _ => rfl) ?_
      (others _ (here.trans active) inside)
    rw [phase]
    rfl
  | @takeOut a phase active inside still allows empty hand past =>
    refine advance_counted inv (here.trans active) (active_set found rfl rfl) rfl (fun _ => still) ?_
      (others _ (here.trans active) inside)
    rw [Phase.met, Phase.met, inside, still]
    rfl
  | @leave a ret active inside gives ends during =>
    refine finish_counted inv dated (here.trans active) (active_set found rfl rfl) rfl rfl rfl rfl ?_ ends.1
      ends.2 (others _ (here.trans active) inside)
    rw [Phase.met, inside, Bool.true_and, Bool.eq_iff_iff, during, beq_iff_eq]

end Meetings

section Values
variable {s t : State T} {i : Nat} {th : Thread T}

def Thread.hand (th : Thread T) : Option (Stamped T) := th.active.bind fun a => a.phase.hand

/-- The values that calls have taken out and not yet returned. -/
def held (s : State T) : Multiset (Stamped T) := ↑(s.threads.filterMap Thread.hand)

def returned (s : State T) : Multiset (Stamped T) := ↑(s.done.filterMap fun r => r.ret.value)

/-- Every value that was written is in one place. -/
structure Ledger (s : State T) : Prop where
  stamps : (s.written.map Prod.snd).Nodup
  early : ∀ n ∈ s.written.map Prod.snd, n < s.clock
  fresh : ∀ i a, s.active i = some a → a.phase.unwritten = true → a.began ∉ s.written.map Prod.snd
  balance : (↑s.written : Multiset (Stamped T)) =
    ↑s.overwritten + ↑s.value.toList + held s + returned s

theorem filterMap_set {A B : Type} (f : A → Option B) {l : List A} {i : Nat} {x : A} (a : A)
    (found : l[i]? = some x) :
    (↑((l.set i a).filterMap f) : Multiset B) + ↑(f x).toList = ↑(l.filterMap f) + ↑(f a).toList := by
  induction l generalizing i with
  | nil => cases found
  | cons b l ih =>
    have cons : ∀ (b : A) (l : List A), (↑((b :: l).filterMap f) : Multiset B) =
        ↑(f b).toList + ↑(l.filterMap f) := by
      intro b l
      rw [List.filterMap_cons, Multiset.coe_add]
      cases f b <;> rfl
    cases i with
    | zero =>
      cases Option.some.inj found
      rw [List.set_cons_zero, cons, cons, add_right_comm, add_comm (↑(f a).toList : Multiset B),
        add_right_comm]
    | succ i =>
      rw [List.set_cons_succ, cons, cons, add_assoc, ih found, add_assoc]

theorem held_set (found : s.threads[i]? = some th) {th' : Thread T}
    (threads : t.threads = s.threads.set i th') :
    held t + ↑th.hand.toList = held s + ↑th'.hand.toList := by
  rw [held, threads]
  exact filterMap_set Thread.hand th' found

theorem returned_snoc {r : Record T} (done : t.done = s.done ++ [r]) :
    returned t = returned s + ↑r.ret.value.toList := by
  rw [returned, done, List.filterMap_append, ← Multiset.coe_add, returned]
  cases value : r.ret.value <;> simp [value]

theorem balance_moved {M : Type} [AddCancelCommMonoid M] {w w' h h' p q : M} (moved : w + p = w' + q)
    (hands : h' + p = h + q) : w + h = w' + h' := by
  refine add_right_cancel (b := p + q) ?_
  calc w + h + (p + q) = (w + p) + (h + q) := add_add_add_comm w h p q
    _ = (w' + q) + (h' + p) := by rw [moved, hands]
    _ = w' + h' + (q + p) := add_add_add_comm w' q h' p
    _ = w' + h' + (p + q) := by rw [add_comm q p]

/-- A call goes on without writing. -/
theorem advance_ledger (inv : Ledger s) (found : s.threads[i]? = some th)
    {a : Active T} {phase : Phase T} (active : th.active = some a)
    (threads : t.threads = s.threads.set i { th with active := some { a with phase } })
    (clock : t.clock = s.clock + 1) (done : t.done = s.done) (written : t.written = s.written)
    (still : phase.unwritten = true → a.phase.unwritten = true)
    (moved : (↑s.overwritten + ↑s.value.toList + ↑a.phase.hand.toList : Multiset (Stamped T)) =
      ↑t.overwritten + ↑t.value.toList + ↑phase.hand.toList) : Ledger t := by
  have here := (active_of_found found).trans active
  have hands := held_set found threads
  have taken : th.hand = a.phase.hand := by rw [Thread.hand, active, Option.bind_some]
  rw [taken] at hands
  constructor
  · rw [written]
    exact inv.stamps
  · intro n member
    have := inv.early n (written ▸ member)
    omega
  · intro j b running unwritten
    rw [written]
    rw [active_set found threads rfl] at running
    by_cases own : j = i
    · rw [if_pos own] at running
      cases Option.some.inj running
      exact inv.fresh i a here (still unwritten)
    · rw [if_neg own] at running
      exact inv.fresh j b running unwritten
  · have same : returned t = returned s := by rw [returned, done, returned]
    rw [written, inv.balance, same]
    exact congrArg (· + returned s) (balance_moved moved hands)

theorem begin_ledger (inv : Ledger s) (found : s.threads[i]? = some th) (waits : th.active = none)
    {todo : List (Call T)} {a : Active T} (empty : a.phase.hand = none) (now : a.began = s.clock) :
    Ledger (s.put i ⟨todo, some a⟩) := by
  have hands := held_set found (t := s.put i ⟨todo, some a⟩) rfl
  have nothing : th.hand = none := by rw [Thread.hand, waits, Option.bind_none]
  have nothing' : (⟨todo, some a⟩ : Thread T).hand = none := by rw [Thread.hand, Option.bind_some, empty]
  rw [nothing, nothing'] at hands
  constructor
  · exact inv.stamps
  · exact fun n member => Nat.lt_succ_of_lt (inv.early n member)
  · intro j b running unwritten member
    rw [active_set (t := s.put i ⟨todo, some a⟩) found rfl rfl] at running
    by_cases own : j = i
    · rw [if_pos own] at running
      cases Option.some.inj running
      have := inv.early a.began member
      omega
    · rw [if_neg own] at running
      exact inv.fresh j b running unwritten member
  · have same : held (s.put i ⟨todo, some a⟩) = held s := by simpa using hands
    rw [same]
    exact inv.balance

theorem finish_ledger (inv : Ledger s) (found : s.threads[i]? = some th) {a : Active T}
    (active : th.active = some a) (threads : t.threads = s.threads.set i { th with active := none })
    (clock : t.clock = s.clock + 1) {r : Record T} (done : t.done = s.done ++ [r])
    (gives : r.ret.value = a.phase.hand) (written : t.written = s.written) (value : t.value = s.value)
    (overwritten : t.overwritten = s.overwritten) : Ledger t := by
  have hands := held_set found threads
  have taken : th.hand = a.phase.hand := by rw [Thread.hand, active, Option.bind_some]
  have nothing : ({ th with active := none } : Thread T).hand = none := rfl
  rw [taken, nothing] at hands
  constructor
  · rw [written]
    exact inv.stamps
  · intro n member
    have := inv.early n (written ▸ member)
    omega
  · intro j b running unwritten
    rw [written]
    exact inv.fresh j b (finish_active (active_set found threads rfl) running).2 unwritten
  · have out : held s = held t + ↑a.phase.hand.toList := by simpa using hands.symm
    rw [written, value, overwritten, inv.balance, returned_snoc done, gives, out]
    rw [← add_assoc _ (held t), add_assoc _ (↑a.phase.hand.toList : Multiset (Stamped T)),
      add_comm (returned s)]

theorem write_ledger (inv : Ledger s) (dated : Dated s) (found : s.threads[i]? = some th)
    {a : Active T} {value : Option (Given T)} (active : th.active = some a)
    (phase : a.phase = .write value)
    (threads : t.threads = s.threads.set i { th with active := some { a with phase := .release } })
    (clock : t.clock = s.clock + 1) (done : t.done = s.done)
    (stored : t.value = stamp value a.began)
    (written : t.written = s.written ++ (stamp value a.began).toList)
    (overwritten : t.overwritten = s.overwritten ++ s.value.toList) : Ledger t := by
  have here := (active_of_found found).trans active
  have hands := held_set found threads
  have nothing : th.hand = none := by rw [Thread.hand, active, Option.bind_some, phase]; rfl
  have nothing' : ({ th with active := some { a with phase := .release } } : Thread T).hand = none :=
    rfl
  rw [nothing, nothing'] at hands
  have mine : a.began ∉ s.written.map Prod.snd := inv.fresh i a here (by rw [phase]; rfl)
  have stamps : (stamp value a.began).toList.map Prod.snd = [] ∨
      (stamp value a.began).toList.map Prod.snd = [a.began] := by
    cases value with
    | none => exact .inl rfl
    | some v => exact .inr rfl
  constructor
  · rw [written, List.map_append]
    rcases stamps with none | one
    · rw [none, List.append_nil]
      exact inv.stamps
    · rw [one]
      exact inv.stamps.append (List.nodup_singleton _) (by simpa using mine)
  · intro n member
    rw [written, List.map_append, List.mem_append] at member
    rcases member with old | new
    · have := inv.early n old
      omega
    · have := dated.early i a here
      rcases stamps with none | one
      · rw [none] at new
        cases new
      · rw [one, List.mem_singleton] at new
        omega
  · intro j b running unwritten member
    rw [active_set found threads rfl] at running
    by_cases own : j = i
    · rw [if_pos own] at running
      cases Option.some.inj running
      cases unwritten
    · rw [if_neg own] at running
      rw [written, List.map_append, List.mem_append] at member
      rcases member with old | new
      · exact inv.fresh j b running unwritten old
      · rcases stamps with none | one
        · rw [none] at new
          cases new
        · rw [one, List.mem_singleton] at new
          exact own (dated.distinct j i b a running here new)
  · have same : held t = held s := by simpa using hands
    have kept : returned t = returned s := by rw [returned, done, returned]
    rw [written, stored, overwritten, same, kept, ← Multiset.coe_add, ← Multiset.coe_add, inv.balance]
    rw [add_right_comm _ (returned s), add_right_comm _ (held s)]

theorem step_ledger (excl : Exclusive s) (dated : Dated s) (inv : Ledger s)
    (taken : step s i = some t) : Ledger t := by
  obtain ⟨th, found, move⟩ := step_move excl taken
  cases move with
  | @begin call todo waits next => exact begin_ledger inv found waits (by cases call <;> rfl) rfl
  | refuse active outside refused busy =>
    exact finish_ledger inv found active rfl rfl rfl
      ((Outcome.refused_plain refused).1.trans (Phase.outside_cases outside).1.symm) rfl rfl rfl
  | meet active outside put =>
    exact finish_ledger inv found active rfl rfl rfl (Phase.outside_cases outside).1.symm rfl rfl rfl
  | enter active outside free inside allows empty alone =>
    obtain ⟨nothing, unwritten⟩ := Phase.outside_cases outside
    exact advance_ledger inv found active rfl rfl rfl rfl (fun _ => unwritten)
      (by rw [nothing, empty]; rfl)
  | write active phase => exact write_ledger inv dated found active phase rfl rfl rfl rfl rfl rfl
  | detour active phase met =>
    exact advance_ledger inv found active rfl rfl rfl rfl nofun (by rw [phase]; rfl)
  | takeOut active inside still allows empty hand past =>
    refine advance_ledger inv found active rfl rfl rfl rfl
      (fun unwritten => absurd (past.symm.trans unwritten) nofun) ?_
    rw [empty, hand, add_right_comm]
    rfl
  | leave active inside gives ends during =>
    exact finish_ledger inv found active rfl rfl rfl gives rfl rfl rfl

end Values

section Runs

structure Orderly (s : State T) : Prop where
  exclusive : Exclusive s
  dated : Dated s
  counted : Counted s
  ledger : Ledger s

theorem start_active (value : Option T) (calls : List (List (Call T))) (i : Nat) :
    (start value calls).active i = none := by
  simp only [State.active, start, List.getElem?_map]
  cases calls[i]? <;> rfl

theorem start_orderly (value : Option T) (calls : List (List (Call T))) :
    Orderly (start value calls) := by
  have idle : ∀ {i a}, (start value calls).active i = some a → False := by
    intro i a active
    cases (start_active value calls i).symm.trans active
  refine ⟨⟨fun _ _ _ _ active => (idle active).elim, fun _ _ active => (idle active).elim,
      fun _ => rfl⟩,
    ⟨fun _ _ active => (idle active).elim, fun _ _ _ _ active => (idle active).elim,
      fun _ _ _ active => (idle active).elim, nofun⟩,
    ⟨fun _ _ active => (idle active).elim, nofun, nofun, nofun, nofun, nofun⟩,
    ⟨?_, ?_, fun _ _ active => (idle active).elim, ?_⟩⟩
  · cases value <;> simp [start]
  · cases value <;> simp [start]
  · have empty : held (start value calls) = 0 := by
      simp [held, start, List.filterMap_map, Function.comp_def, Thread.hand]
    rw [empty]
    simp [start, returned]

theorem step_orderly (s : State T) (i : Nat) (t : State T) (inv : Orderly s)
    (taken : step s i = some t) : Orderly t where
  exclusive := step_exclusive inv.exclusive taken
  dated := step_dated inv.exclusive inv.dated taken
  counted := step_counted inv.exclusive inv.dated inv.counted taken
  ledger := step_ledger inv.exclusive inv.dated inv.ledger taken

end Runs
end Juggle.St.Marker
