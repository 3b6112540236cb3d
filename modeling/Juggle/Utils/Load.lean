import Mathlib.Data.List.Nodup
import Mathlib.Data.List.Perm.Basic
import Juggle.Utils.Decision

/-! The load balancing wrappers of `utils/load.rs` that share one timing group. A poll of
the wrapped future is user code and may do anything to the other wrappers, so it is a
pair of events with any others in between. -/
namespace Juggle.Utils.Load
open Juggle.Runs ChunkSlab

/-- One living wrapper. Its identity and the slot count it was created with are ghosts. -/
structure LoadBalance where
  id : Nat
  prop : U16
  index : Nat
  deriving DecidableEq

/-- A group with its reference count, and the wrappers around it. The wrappers in
`polling` are being polled, the innermost one first; `unregistered` lists the wrappers
whose entry has been taken out of the group. Both lists and `created` are ghosts. -/
structure Balance (C : Type) where
  group : TimingGroup C
  strong : Nat
  living : List LoadBalance
  polling : List LoadBalance
  created : Nat
  unregistered : List Nat

inductive Event (C : Type) where
  | insert (id : Nat) (prop : U16)
  | poll (id : Nat)
  | polled (dur : C)
  | pollPanic
  | remove (id : Nat)
  | drop (id : Nat)

/-- What a call gives back; `clock` says whether `remove` handed the clock out. -/
inductive Answer where
  | wrapper (id : Nat)
  | pending
  | started
  | done
  | clock (returned : Bool)
  | panicked (p : GroupPanic)
  deriving DecidableEq

section Model
variable {C : Type} [LinearOrder C] [TimerCount C]

/-- `LoadBalance::with`. -/
def withClock (prop : U16) : Except GroupPanic (Balance C) :=
  match TimingGroup.new.insert prop with
  | (.error p, _) => .error p
  | (.ok key, group) => .ok
    { group, strong := 1, living := [⟨0, prop, key⟩], polling := [], created := 1,
      unregistered := [] }

def Balance.count (s : Balance C) : Nat := s.group.count

def Balance.find (s : Balance C) (id : Nat) : Option LoadBalance :=
  s.living.find? fun w => w.id == id

/-- The new wrapper holds a clone of the `Rc`. -/
def insert (s : Balance C) (prop : U16) : Answer × Balance C :=
  match s.group.insert prop with
  | (.error p, group) => (.panicked p, { s with group })
  | (.ok index, group) =>
    (.wrapper s.created, { s with
      group
      strong := s.strong + 1
      living := ⟨s.created, prop, index⟩ :: s.living
      created := s.created + 1 })

/-- `poll` up to the poll of the wrapped future. -/
def poll (s : Balance C) (w : LoadBalance) : Answer × Balance C :=
  match s.group.canExecute w.index with
  | .error p => (.panicked p, s)
  | .ok false => (.pending, s)
  | .ok true => (.started, { s with polling := w :: s.polling })

/-- `poll` from the return of the wrapped future on. -/
def polled (s : Balance C) (w : LoadBalance) (dur : C) : Answer × Balance C :=
  match s.group.updateDuration w.index dur with
  | (.error p, group) => (.panicked p, { s with group })
  | (.ok (), group) => (.done, { s with group })

def doUnregister (s : Balance C) (w : LoadBalance) : Except GroupPanic Unit × Balance C :=
  match s.group.remove w.index with
  | (.error p, group) => (.error p, { s with group })
  | (.ok (), group) => (.ok (), { s with group, unregistered := w.id :: s.unregistered })

def dropRc (s : Balance C) : Balance C := { s with strong := s.strong - 1 }

/-- The destructor of `Registered` and then that of its `Rc`. -/
def dropRegistered (s : Balance C) (w : LoadBalance) : Answer × Balance C :=
  match doUnregister s w with
  | (.error p, s) => (.panicked p, s)
  | (.ok (), s) => (.done, dropRc s)

/-- The `Rc` is read out and the rest forgotten, so that the count stays as it is. -/
def unregisterAndGet (s : Balance C) (w : LoadBalance) : Except GroupPanic Unit × Balance C :=
  doUnregister s w

/-- `Rc::try_unwrap(group).ok()`: the handle is consumed either way. -/
def tryUnwrap (s : Balance C) : Bool × Balance C := (decide (s.strong = 1), dropRc s)

/-- `LoadBalance::remove`. -/
def remove (s : Balance C) (w : LoadBalance) : Answer × Balance C :=
  match unregisterAndGet s w with
  | (.error p, s) => (.panicked p, s)
  | (.ok (), s) =>
    let r := tryUnwrap s
    (.clock r.1, r.2)

/-- A wrapper that is being polled is pinned and borrowed, it is not polled again, moved
or dropped before that poll is over; polls end in the opposite order of their starts. -/
def call (s : Balance C) : Event C → Option (Answer × Balance C)
  | .insert id prop => (s.find id).map fun _ => insert s prop
  | .poll id => (s.find id).bind fun w => if w ∈ s.polling then none else some (poll s w)
  | .polled dur =>
    match s.polling with
    | [] => none
    | w :: rest => some (polled { s with polling := rest } w dur)
  | .pollPanic =>
    match s.polling with
    | [] => none
    | _ :: rest => some (.done, { s with polling := rest })
  | .remove id => (s.find id).bind fun w => if w ∈ s.polling then none else
      some (remove { s with living := s.living.erase w } w)
  | .drop id => (s.find id).bind fun w => if w ∈ s.polling then none else
      some (dropRegistered { s with living := s.living.erase w } w)

def step (s : Balance C) (e : Event C) : Option (Balance C) := (call s e).map Prod.snd

end Model

section Registry
variable {C : Type}

/-- Entries and living wrappers correspond one to one; the count, the references and the
log of released entries follow them. -/
structure Registry (s : Balance C) : Prop where
  wf : WellFormed s.group.info
  entry : ∀ w ∈ s.living, ∃ e, s.group.info.get w.index = some e ∧ e.proportion.get = w.prop.val
  owned : ∀ k e, s.group.info.get k = some e → ∃ w ∈ s.living, w.index = k
  apart : (s.living.map LoadBalance.index).Nodup
  named : (s.living.map LoadBalance.id).Nodup
  older : ∀ w ∈ s.living, w.id < s.created
  count : s.group.info.len = s.living.length
  strong : s.strong = s.living.length
  polling : ∀ w ∈ s.polling, w ∈ s.living
  log : ∀ id, s.unregistered.count id =
    if id < s.created ∧ ∀ w ∈ s.living, w.id ≠ id then 1 else 0

theorem find_mem {s : Balance C} {id : Nat} {w : LoadBalance} (found : s.find id = some w) :
    w ∈ s.living ∧ w.id = id :=
  ⟨List.mem_of_find?_eq_some found, by simpa using List.find?_some found⟩

theorem withClock_registry [TimerCount C] {prop : U16} {s : Balance C} (made : withClock prop = .ok s) :
    Registry s := by
  by_cases zero : prop = 0
  · subst zero
    rw [withClock, TimingGroup.insert_zero] at made
    cases made
  · obtain ⟨proportion, key, info, inserted, slots, spec⟩ :=
      TimingGroup.insert_some (g := TimingGroup.new) (C := C) new_wellFormed zero
    simp only [withClock, inserted] at made
    cases made
    refine ⟨spec.wf, ?_, ?_, by simp, by simp, by simp, spec.len, rfl, by simp, ?_⟩
    · intro w member
      cases List.mem_singleton.mp member
      exact ⟨_, spec.bound, slots⟩
    · intro k e present
      by_cases same : k = key
      · exact ⟨_, List.mem_singleton.mpr rfl, same.symm⟩
      · cases (spec.others k same).symm.trans present
    · intro id
      have gone : ¬ (id < 1 ∧ ∀ w ∈ [LoadBalance.mk 0 prop key], w.id ≠ id) := by
        rintro ⟨first, other⟩
        exact other _ List.mem_cons_self (Nat.lt_one_iff.mp first).symm
      exact (if_neg gone).symm

/-- The state after a wrapper has joined the group. -/
def joined (s : Balance C) (prop : U16) (key : Nat) (info : ChunkSlab Nat (TimeEntry C)) :
    Balance C :=
  { s with
    group := { s.group with info }
    strong := s.strong + 1
    living := ⟨s.created, prop, key⟩ :: s.living
    created := s.created + 1 }

theorem joined_registry [TimerCount C] {s : Balance C} (inv : Registry s) {prop : U16}
    {proportion : NonZeroU16} {key : Nat} {info : ChunkSlab Nat (TimeEntry C)}
    (slots : proportion.get = prop.val)
    (spec : Inserted s.group.info ⟨TimerCount.default, proportion⟩ key info) :
    Registry (joined s prop key info) := by
  have fresh : ∀ w ∈ s.living, w.index ≠ key := by
    rintro w member rfl
    obtain ⟨e, present, -⟩ := inv.entry w member
    cases spec.fresh.symm.trans present
  refine ⟨spec.wf, ?_, ?_, ?_, ?_, ?_, ?_, ?_, ?_, ?_⟩
  · intro w member
    rcases List.mem_cons.mp member with rfl | member
    · exact ⟨_, spec.bound, slots⟩
    · obtain ⟨e, present, same⟩ := inv.entry w member
      exact ⟨e, (spec.others _ (fresh w member)).trans present, same⟩
  · intro k e present
    by_cases same : k = key
    · exact ⟨_, List.mem_cons_self, same.symm⟩
    · obtain ⟨w, member, index⟩ := inv.owned k e ((spec.others k same).symm.trans present)
      exact ⟨w, List.mem_cons_of_mem _ member, index⟩
  · refine List.nodup_cons.mpr ⟨fun member => ?_, inv.apart⟩
    obtain ⟨w, hw, same⟩ := List.mem_map.mp member
    exact fresh w hw same
  · refine List.nodup_cons.mpr ⟨fun member => ?_, inv.named⟩
    obtain ⟨w, hw, same⟩ := List.mem_map.mp member
    exact Nat.ne_of_lt (inv.older w hw) same
  · intro w member
    rcases List.mem_cons.mp member with rfl | member
    · exact Nat.lt_succ_self s.created
    · exact Nat.lt_succ_of_lt (inv.older w member)
  · exact spec.len.trans (congrArg (· + 1) inv.count)
  · exact congrArg (· + 1) inv.strong
  · exact fun w member => List.mem_cons_of_mem _ (inv.polling w member)
  · intro id
    change s.unregistered.count id = if id < s.created + 1 ∧ _ then 1 else 0
    rw [inv.log id]
    refine if_congr ⟨?_, ?_⟩ rfl rfl
    · rintro ⟨old, gone⟩
      refine ⟨Nat.lt_succ_of_lt old, fun w member => ?_⟩
      rcases List.mem_cons.mp member with rfl | member
      · exact Nat.ne_of_gt old
      · exact gone w member
    · rintro ⟨old, gone⟩
      have new : s.created ≠ id := gone _ List.mem_cons_self
      have below : id < s.created + 1 := old
      exact ⟨by omega, fun w member => gone w (List.mem_cons_of_mem _ member)⟩

/-- The state after the entry of a wrapper is released. -/
def released (s : Balance C) (w : LoadBalance) (info : ChunkSlab Nat (TimeEntry C)) : Balance C :=
  dropRc { s with
    group := { s.group with info }
    living := s.living.erase w
    unregistered := w.id :: s.unregistered }

theorem doUnregister_some {s : Balance C} (inv : Registry s) {w : LoadBalance}
    (member : w ∈ s.living) :
    ∃ e info, s.group.info.get w.index = some e ∧ Removed s.group.info w.index e info ∧
      doUnregister { s with living := s.living.erase w } w = (.ok (), { s with
        group := { s.group with info }
        living := s.living.erase w
        unregistered := w.id :: s.unregistered }) := by
  obtain ⟨e, present, -⟩ := inv.entry w member
  obtain ⟨info, removed, spec⟩ := TimingGroup.remove_some inv.wf present
  exact ⟨e, info, present, spec, by simp only [doUnregister, removed]⟩

theorem mem_erase_iff {s : Balance C} (inv : Registry s) (v w : LoadBalance) :
    v ∈ s.living.erase w ↔ v ≠ w ∧ v ∈ s.living :=
  (inv.named.of_map LoadBalance.id).mem_erase_iff

theorem released_registry {s : Balance C} (inv : Registry s) {w : LoadBalance}
    (member : w ∈ s.living) (idle : w ∉ s.polling) {e : TimeEntry C}
    {info : ChunkSlab Nat (TimeEntry C)} (spec : Removed s.group.info w.index e info) :
    Registry (released s w info) := by
  have remains := mem_erase_iff inv
  have others : ∀ v ∈ s.living, v ≠ w → v.index ≠ w.index ∧ v.id ≠ w.id := fun v hv other =>
    ⟨fun same => other (List.inj_on_of_nodup_map inv.apart hv member same),
      fun same => other (List.inj_on_of_nodup_map inv.named hv member same)⟩
  have shorter : (s.living.erase w).length + 1 = s.living.length := by
    have pos := List.length_pos_of_mem member
    rw [List.length_erase_of_mem member]
    omega
  have counted := inv.count
  have refs := inv.strong
  have len := spec.len
  refine ⟨spec.wf, ?_, ?_, ?_, ?_, ?_, ?_, ?_, ?_, ?_⟩
  · intro v hv
    obtain ⟨other, hv⟩ := (remains v w).mp hv
    obtain ⟨f, present, same⟩ := inv.entry v hv
    exact ⟨f, (spec.others _ (others v hv other).1).trans present, same⟩
  · intro k f present
    have other : k ≠ w.index := by
      rintro rfl
      cases spec.gone.symm.trans present
    obtain ⟨v, hv, index⟩ := inv.owned k f ((spec.others k other).symm.trans present)
    refine ⟨v, (remains v w).mpr ⟨?_, hv⟩, index⟩
    rintro rfl
    exact other index.symm
  · exact inv.apart.sublist (List.erase_sublist.map _)
  · exact inv.named.sublist (List.erase_sublist.map _)
  · exact fun v hv => inv.older v ((remains v w).mp hv).2
  · change info.len = (s.living.erase w).length
    omega
  · change s.strong - 1 = (s.living.erase w).length
    omega
  · intro v hv
    refine (remains v w).mpr ⟨?_, inv.polling v hv⟩
    rintro rfl
    exact idle hv
  · intro id
    change (w.id :: s.unregistered).count id =
      if id < s.created ∧ ∀ v ∈ s.living.erase w, v.id ≠ id then 1 else 0
    rw [List.count_cons, inv.log id]
    by_cases mine : w.id = id
    · subst mine
      have alive : ¬ (w.id < s.created ∧ ∀ v ∈ s.living, v.id ≠ w.id) :=
        fun gone => gone.2 w member rfl
      have gone : w.id < s.created ∧ ∀ v ∈ s.living.erase w, v.id ≠ w.id :=
        ⟨inv.older w member, fun v hv =>
          (others v ((remains v w).mp hv).2 ((remains v w).mp hv).1).2⟩
      rw [if_neg alive, if_pos gone]
      simp
    · have same : (∀ v ∈ s.living, v.id ≠ id) ↔ ∀ v ∈ s.living.erase w, v.id ≠ id := by
        refine ⟨fun all v hv => all v ((remains v w).mp hv).2, fun all v hv => ?_⟩
        by_cases here : v = w
        · exact here ▸ mine
        · exact all v ((remains v w).mpr ⟨here, hv⟩)
      simp [same, mine]

theorem polling_registry {s : Balance C} (inv : Registry s) {ws : List LoadBalance}
    (alive : ∀ w ∈ ws, w ∈ s.living) : Registry { s with polling := ws } :=
  { inv with polling := alive }

theorem charged_registry [LinearOrder C] [TimerCount C] {s : Balance C} (inv : Registry s)
    {key : Nat} {entry : TimeEntry C} (present : s.group.info.get key = some entry)
    (this : TimeEntry C) (same : this.proportion = entry.proportion) :
    Registry { s with group := s.group.charged key this } := by
  have kept : ∀ k, (s.group.charged key this).info.get k =
      if k = key then some this else s.group.info.get k := by
    intro k
    change (s.group.info.update key _).get k = _
    split
    · rename_i here
      rw [here, get_update_self, present]
      rfl
    · rename_i other
      exact get_update_other _ _ other
  refine { inv with wf := update_wellFormed inv.wf _ _, entry := ?_, owned := ?_, count := ?_ }
  · intro w member
    obtain ⟨e, found, slots⟩ := inv.entry w member
    change ∃ e, (s.group.charged key this).info.get w.index = some e ∧ _
    rw [kept]
    split
    · rename_i here
      cases Option.some.inj (present.symm.trans (here ▸ found))
      exact ⟨this, rfl, same ▸ slots⟩
    · exact ⟨e, found, slots⟩
  · intro k e found
    change (s.group.charged key this).info.get k = some e at found
    rw [kept] at found
    split at found
    · rename_i here
      exact inv.owned k entry (here ▸ present)
    · exact inv.owned k e found
  · exact (len_update s.group.info key _).trans inv.count

end Registry

section Outcomes
variable {C : Type} [LinearOrder C] [TimerCount C]

/-- What an event can do to a group whose wrappers are in order. -/
inductive Outcome (s : Balance C) : Event C → Answer → Balance C → Prop
  | refused (id : Nat) :
      Outcome s (.insert id 0) (.panicked (.expect "Time slot count is zero.")) s
  | inserted (id : Nat) {prop : U16} {proportion : NonZeroU16} {key : Nat}
      {info : ChunkSlab Nat (TimeEntry C)} (slots : proportion.get = prop.val)
      (spec : Inserted s.group.info ⟨TimerCount.default, proportion⟩ key info) :
      Outcome s (.insert id prop) (.wrapper s.created) (joined s prop key info)
  | pending (id : Nat) : Outcome s (.poll id) .pending s
  | started (id : Nat) {w : LoadBalance} (member : w ∈ s.living) :
      Outcome s (.poll id) .started { s with polling := w :: s.polling }
  | finished {dur : C} {w : LoadBalance} {rest : List LoadBalance} {entry : TimeEntry C}
      (innermost : s.polling = w :: rest) (present : s.group.info.get w.index = some entry) :
      Outcome s (.polled dur) .done { s with
        polling := rest
        group := s.group.charged w.index { entry with sum := TimerCount.add entry.sum dur } }
  | unwound {w : LoadBalance} {rest : List LoadBalance} (innermost : s.polling = w :: rest) :
      Outcome s .pollPanic .done { s with polling := rest }
  | removed (id : Nat) {w : LoadBalance} {e : TimeEntry C} {info : ChunkSlab Nat (TimeEntry C)}
      (member : w ∈ s.living) (idle : w ∉ s.polling)
      (present : s.group.info.get w.index = some e)
      (spec : Removed s.group.info w.index e info) :
      Outcome s (.remove id) (.clock (decide (s.strong = 1))) (released s w info)
  | dropped (id : Nat) {w : LoadBalance} {e : TimeEntry C} {info : ChunkSlab Nat (TimeEntry C)}
      (member : w ∈ s.living) (idle : w ∉ s.polling)
      (present : s.group.info.get w.index = some e)
      (spec : Removed s.group.info w.index e info) :
      Outcome s (.drop id) .done (released s w info)

theorem poll_outcome {s t : Balance C} (inv : Registry s) {id : Nat} {w : LoadBalance} {a : Answer}
    (member : w ∈ s.living) (answered : poll s w = (a, t)) : Outcome s (.poll id) a t := by
  obtain ⟨e, present, -⟩ := inv.entry w member
  obtain ⟨b, decided⟩ := TimingGroup.canExecute_ok inv.wf present
  cases b with
  | false =>
    simp only [poll, decided, Prod.mk.injEq] at answered
    obtain ⟨rfl, rfl⟩ := answered
    exact .pending id
  | true =>
    simp only [poll, decided, Prod.mk.injEq] at answered
    obtain ⟨rfl, rfl⟩ := answered
    exact .started id member

theorem insert_outcome {s t : Balance C} (inv : Registry s) {id : Nat} {prop : U16} {a : Answer}
    (answered : insert s prop = (a, t)) : Outcome s (.insert id prop) a t := by
  by_cases zero : prop = 0
  · subst zero
    simp only [insert, TimingGroup.insert_zero, Prod.mk.injEq] at answered
    obtain ⟨rfl, rfl⟩ := answered
    exact .refused id
  · obtain ⟨proportion, key, info, inserted, slots, spec⟩ := TimingGroup.insert_some inv.wf zero
    simp only [insert, inserted, Prod.mk.injEq] at answered
    obtain ⟨rfl, rfl⟩ := answered
    exact .inserted id slots spec

theorem polled_outcome {s t : Balance C} (inv : Registry s) {dur : C} {w : LoadBalance}
    {rest : List LoadBalance} {a : Answer} (innermost : s.polling = w :: rest)
    (answered : polled { s with polling := rest } w dur = (a, t)) :
    Outcome s (.polled dur) a t := by
  have member : w ∈ s.living := inv.polling w (innermost ▸ List.mem_cons_self)
  obtain ⟨e, present, -⟩ := inv.entry w member
  simp only [polled, TimingGroup.updateDuration_some inv.wf present, Prod.mk.injEq] at answered
  obtain ⟨rfl, rfl⟩ := answered
  exact .finished innermost present

theorem release_outcome {s t : Balance C} (inv : Registry s) {id : Nat} {w : LoadBalance}
    {a : Answer} (member : w ∈ s.living) (idle : w ∉ s.polling) :
    (remove { s with living := s.living.erase w } w = (a, t) → Outcome s (.remove id) a t) ∧
      (dropRegistered { s with living := s.living.erase w } w = (a, t) →
        Outcome s (.drop id) a t) := by
  obtain ⟨e, info, present, spec, done⟩ := doUnregister_some inv member
  constructor
  · intro answered
    simp only [remove, unregisterAndGet, done, tryUnwrap, Prod.mk.injEq] at answered
    obtain ⟨rfl, rfl⟩ := answered
    exact .removed id member idle present spec
  · intro answered
    simp only [dropRegistered, done, Prod.mk.injEq] at answered
    obtain ⟨rfl, rfl⟩ := answered
    exact .dropped id member idle present spec

theorem call_outcome {s t : Balance C} (inv : Registry s) {e : Event C} {a : Answer}
    (taken : call s e = some (a, t)) : Outcome s e a t := by
  cases e with
  | insert id prop =>
    obtain ⟨w, -, answered⟩ := Option.map_eq_some_iff.mp taken
    exact insert_outcome inv answered
  | poll id =>
    obtain ⟨w, found, answered⟩ := Option.bind_eq_some_iff.mp taken
    split at answered
    · cases answered
    · exact poll_outcome inv (find_mem found).1 (Option.some.inj answered)
  | polled dur =>
    simp only [call] at taken
    split at taken
    · cases taken
    · rename_i w rest innermost
      exact polled_outcome inv innermost (Option.some.inj taken)
  | pollPanic =>
    simp only [call] at taken
    split at taken
    · cases taken
    · rename_i w rest innermost
      cases Option.some.inj taken
      exact .unwound innermost
  | remove id =>
    obtain ⟨w, found, answered⟩ := Option.bind_eq_some_iff.mp taken
    split at answered
    · cases answered
    · rename_i idle
      exact (release_outcome inv (find_mem found).1 idle).1 (Option.some.inj answered)
  | drop id =>
    obtain ⟨w, found, answered⟩ := Option.bind_eq_some_iff.mp taken
    split at answered
    · cases answered
    · rename_i idle
      exact (release_outcome inv (find_mem found).1 idle).2 (Option.some.inj answered)

theorem outcome_registry {s t : Balance C} (inv : Registry s) {e : Event C} {a : Answer}
    (outcome : Outcome s e a t) : Registry t := by
  cases outcome with
  | refused | pending => exact inv
  | inserted _ slots spec => exact joined_registry inv slots spec
  | started _ member =>
    refine polling_registry inv (fun v hv => ?_)
    rcases List.mem_cons.mp hv with rfl | hv
    · exact member
    · exact inv.polling v hv
  | @finished dur _ _ entry innermost present =>
    let this : TimeEntry C := { entry with sum := TimerCount.add entry.sum dur }
    refine polling_registry (charged_registry inv present this rfl) (fun v hv => ?_)
    exact inv.polling v (innermost ▸ List.mem_cons_of_mem _ hv)
  | unwound innermost =>
    exact polling_registry inv (fun v hv => inv.polling v (innermost ▸ List.mem_cons_of_mem _ hv))
  | removed _ member idle _ spec => exact released_registry inv member idle spec
  | dropped _ member idle _ spec => exact released_registry inv member idle spec

theorem step_call {s t : Balance C} {e : Event C} (taken : step s e = some t) :
    ∃ a, call s e = some (a, t) := by
  obtain ⟨⟨a, u⟩, called, rfl⟩ := Option.map_eq_some_iff.mp taken
  exact ⟨a, called⟩

theorem step_registry (s : Balance C) (e : Event C) (t : Balance C) (inv : Registry s)
    (taken : step s e = some t) : Registry t := by
  obtain ⟨a, called⟩ := step_call taken
  exact outcome_registry inv (call_outcome inv called)

theorem run_registry {prop : U16} {s t : Balance C} {es : List (Event C)}
    (made : withClock prop = .ok s) (run : exec step s es = some t) : Registry t :=
  invariant_run step_registry (withClock_registry made) run

/-- The clock is handed out when the wrapper was the last one. -/
theorem clock_iff {s t : Balance C} (inv : Registry s) {id : Nat} {a : Answer}
    (outcome : Outcome s (.remove id) a t) : a = .clock (decide (t.living = [])) := by
  cases outcome with
  | @removed _ w _ _ member idle _ spec =>
    have refs := inv.strong
    have pos := List.length_pos_of_mem member
    have shorter := List.length_erase_of_mem member
    congr 2
    change (s.strong = 1) = (s.living.erase w = [])
    rw [← List.length_eq_zero_iff, shorter]
    exact propext (by omega)

/-- In every run the living wrappers name distinct entries with their own slot counts and
are as many as the group counts; the entry of a wrapper is released once, when the wrapper
goes; no call panics but an insertion without slots; the last wrapper gets the clock. -/
theorem group_membership (prop : U16) (s t : Balance C) (es : List (Event C))
    (made : withClock prop = .ok s) (run : exec step s es = some t) :
    (∀ w ∈ t.living, t.group.getSlotCount w.index = some w.prop.val) ∧
      (t.living.map LoadBalance.index).Nodup ∧ t.count = t.living.length ∧
      (∀ id, t.unregistered.count id =
        if id < t.created ∧ ∀ w ∈ t.living, w.id ≠ id then 1 else 0) ∧
      (∀ e a u, call t e = some (a, u) → ∀ p, a = .panicked p → ∃ id, e = .insert id 0) ∧
      (∀ id a u, call t (.remove id) = some (a, u) → a = .clock (decide (u.living = []))) := by
  have inv := run_registry made run
  refine ⟨fun w member => ?_, inv.apart, inv.count, inv.log, fun e a u called p panicked => ?_,
    fun id a u called => clock_iff inv (call_outcome inv called)⟩
  · obtain ⟨entry, present, slots⟩ := inv.entry w member
    rw [TimingGroup.getSlotCount, present, Option.map_some, slots]
  · cases call_outcome inv called with
    | refused id => exact ⟨id, rfl⟩
    | inserted | pending | started | finished | unwound | removed | dropped => cases panicked

/-- The group sees nothing of an event, or one call of its own. -/
theorem outcome_move {s t : Balance C} {e : Event C} {a : Answer} (outcome : Outcome s e a t) :
    t.group = s.group ∨ ∃ op, TimingGroup.Move s.group op t.group := by
  cases outcome with
  | refused | pending | started | unwound => exact .inl rfl
  | inserted _ slots spec => exact .inr ⟨_, .insert slots spec⟩
  | @finished dur w _ _ _ present => exact .inr ⟨.updateDuration w.index dur, .charge present⟩
  | removed _ _ _ present spec => exact .inr ⟨_, .remove present spec⟩
  | dropped _ _ _ present spec => exact .inr ⟨_, .remove present spec⟩

/-- The registry with the bound that lets the slowest wrapper run. -/
theorem step_bounded [LawfulTimerCount C] (s : Balance C) (e : Event C) (t : Balance C)
    (inv : Registry s ∧ TimingGroup.Bounded s.group) (taken : step s e = some t) :
    Registry t ∧ TimingGroup.Bounded t.group := by
  obtain ⟨a, called⟩ := step_call taken
  have outcome := call_outcome inv.1 called
  refine ⟨outcome_registry inv.1 outcome, ?_⟩
  rcases outcome_move outcome with same | ⟨op, move⟩
  · exact same ▸ inv.2
  · exact TimingGroup.move_bounded inv.2 move

theorem withClock_bounded [LawfulTimerCount C] {prop : U16} {s : Balance C}
    (made : withClock prop = .ok s) : TimingGroup.Bounded s.group := by
  have whole := TimingGroup.call_move (g := TimingGroup.new) (C := C) new_wellFormed (.insert prop)
  cases inserted : TimingGroup.new.insert (C := C) prop with
  | mk answer group =>
    simp only [TimingGroup.call, inserted] at whole
    cases answer with
    | error p => simp only [withClock, inserted, reduceCtorEq] at made
    | ok key =>
      simp only [withClock, inserted] at made
      cases made
      exact TimingGroup.move_bounded TimingGroup.new_bounded whole

/-- A wrapper whose entry has the least proportional time starts when it is polled. -/
theorem some_wrapper_starts {s : Balance C} (inv : Registry s ∧ TimingGroup.Bounded s.group)
    (some_wrapper : s.living ≠ []) : ∃ w ∈ s.living, (poll s w).1 = .started := by
  obtain ⟨w, member⟩ := List.exists_mem_of_ne_nil _ some_wrapper
  obtain ⟨e, present, -⟩ := inv.1.entry w member
  obtain ⟨k, f, found, passed⟩ := TimingGroup.somebody_executes inv.2 present
  obtain ⟨v, hv, rfl⟩ := inv.1.owned k f found
  exact ⟨v, hv, by simp only [poll, passed]⟩

end Outcomes

/-- With any unsigned count, wrapping around or not, an entry of least proportional time
may execute after every history, and some wrapper of a group is always let through. -/
theorem somebody_may_run (t : UnsignedCount) :
    (∀ (ops : List (TimingGroup.Op t.Count)) (g : TimingGroup t.Count),
      exec TimingGroup.step TimingGroup.new ops = some g → ∀ k e, g.info.get k = some e →
      (∀ j f, g.info.get j = some f →
        TimingGroup.getProportional e ≤ TimingGroup.getProportional f) →
      g.canExecute k = .ok true) ∧
    (∀ (prop : U16) (s u : Balance t.Count) (es : List (Event t.Count)),
      withClock prop = .ok s → exec step s es = some u → u.living ≠ [] →
      ∃ w ∈ u.living, (poll u w).1 = .started) := by
  refine ⟨fun ops g run k e present least => ?_, fun prop s u es made run alive => ?_⟩
  · exact TimingGroup.least_executes (TimingGroup.run_bounded run) present least
  · exact some_wrapper_starts
      (invariant_run step_bounded ⟨withClock_registry made, withClock_bounded made⟩ run) alive

/-- The group of a first wrapper, or an empty one where there are no slots. -/
def opened (C : Type) [TimerCount C] (prop : U16) : Balance C :=
  match withClock prop with
  | .ok s => s
  | .error _ => ⟨TimingGroup.new, 0, [], [], 0, []⟩

theorem withClock_opened {C : Type} [TimerCount C] {prop : U16} (some_slots : prop ≠ 0) :
    withClock prop = .ok (opened C prop) := by
  obtain ⟨proportion, key, info, inserted, -⟩ :=
    TimingGroup.insert_some (g := TimingGroup.new) (C := C) new_wellFormed some_slots
  simp only [opened, withClock, inserted]

theorem group_membership_pair :
    let t := last step (opened Nat 1) [.insert 0 2, .poll 1, .polled 4, .drop 0]
    t.count = t.living.length ∧ t.unregistered.count 0 = 1 := by
  have run : exec step (opened Nat 1) [.insert 0 2, .poll 1, .polled 4, .drop 0] = some _ :=
    exec_last (by decide +kernel)
  have all := group_membership 1 (opened Nat 1) _ _ (withClock_opened (by decide)) run
  exact ⟨all.2.2.1, by decide +kernel⟩

theorem somebody_may_run_pair :
    (last TimingGroup.step TimingGroup.new
      [.insert 1, .insert 1, .updateDuration 0 (7 : UnsignedCount.u16.Count)]).canExecute 1 =
        .ok true ∧
    ∃ w ∈ (last step (opened UnsignedCount.u16.Count 1) [.insert 0 2]).living,
      (poll (last step (opened UnsignedCount.u16.Count 1) [.insert 0 2]) w).1 = .started := by
  have both := somebody_may_run .u16
  let ops : List (TimingGroup.Op UnsignedCount.u16.Count) :=
    [.insert 1, .insert 1, .updateDuration 0 7]
  have entry : ((last TimingGroup.step TimingGroup.new ops).info.get 1).map
      TimingGroup.getProportional = some 0 := by decide +kernel
  obtain ⟨e, present, zero⟩ := Option.map_eq_some_iff.mp entry
  constructor
  · exact both.1 ops _ (exec_last (by decide +kernel)) 1 e present
      (fun j f _ => zero ▸ Fin.zero_le _)
  · exact both.2 1 (opened _ 1) _ [.insert 0 2] (withClock_opened (by decide))
      (exec_last (by decide +kernel)) (by decide +kernel)

end Juggle.Utils.Load
