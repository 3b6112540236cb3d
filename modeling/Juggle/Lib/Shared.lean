import Mathlib.Data.List.Count
import Mathlib.Data.List.Dedup
import Mathlib.Data.List.Perm.Basic
import Mathlib.Logic.Function.Basic

/-! Allocations with a strong and a weak count. Strong pointers keep the value, weak ones
keep the memory only. The invariant compares the counts with the lists of all pointers
there are, so a program is modelled by keeping those lists. -/
namespace Juggle.Sharing

abbrev Addr := Nat

/-- Only `addr` exists at run time. `birth` says which allocation the pointer was made for,
since an address can be given out again. -/
structure Ptr where
  addr : Addr
  birth : Nat
  deriving DecidableEq

structure Block (α : Type) where
  birth : Nat
  value : Option α
  strong : Nat
  weak : Nat

/-- Memory that nothing points to is freed. -/
def Block.settle {α : Type} (b : Block α) : Option (Block α) :=
  if b.strong = 0 ∧ b.weak = 0 then none else some b

structure Heap (α : Type) where
  blocks : Addr → Option (Block α)
  births : Nat

namespace Heap
variable {α : Type}

def empty : Heap α := ⟨fun _ => none, 0⟩

def alter (h : Heap α) (a : Addr) (f : Block α → Option (Block α)) : Heap α :=
  { h with blocks := Function.update h.blocks a ((h.blocks a).bind f) }

def strongCount (h : Heap α) (p : Ptr) : Nat :=
  match h.blocks p.addr with
  | some b => b.strong
  | none => 0

def value (h : Heap α) (p : Ptr) : Option α := (h.blocks p.addr).bind Block.value

/-- The allocator may choose any free address. -/
def alloc (h : Heap α) (a : Addr) (x : α) : Option (Ptr × Heap α) :=
  match h.blocks a with
  | none => some (⟨a, h.births⟩,
      ⟨Function.update h.blocks a (some ⟨h.births, some x, 1, 0⟩), h.births + 1⟩)
  | some _ => none

def modify (h : Heap α) (p : Ptr) (f : α → α) : Heap α :=
  h.alter p.addr fun b => some { b with value := b.value.map f }

def upgrade (h : Heap α) (p : Ptr) : Option (Heap α) :=
  if h.strongCount p = 0 then none
  else some (h.alter p.addr fun b => some { b with strong := b.strong + 1 })

def addWeak (h : Heap α) (p : Ptr) : Heap α :=
  h.alter p.addr fun b => some { b with weak := b.weak + 1 }

def dropWeak (h : Heap α) (p : Ptr) : Heap α :=
  h.alter p.addr fun b => { b with weak := b.weak - 1 }.settle

/-- The last strong pointer hands the value over. -/
def dropStrong (h : Heap α) (p : Ptr) : Option α × Heap α :=
  if h.strongCount p = 1 then
    (h.value p, h.alter p.addr fun b => { b with value := none, strong := 0 }.settle)
  else (none, h.alter p.addr fun b => some { b with strong := b.strong - 1 })

theorem blocks_alter {h : Heap α} {a : Addr} {f : Block α → Option (Block α)} {b : Block α}
    (found : h.blocks a = some b) : (h.alter a f).blocks = Function.update h.blocks a (f b) := by
  simp only [alter, found, Option.bind_some]

@[simp] theorem births_alter (h : Heap α) (a : Addr) (f : Block α → Option (Block α)) :
    (h.alter a f).births = h.births := rfl

@[simp] theorem births_modify (h : Heap α) (p : Ptr) (f : α → α) : (h.modify p f).births = h.births :=
  rfl

@[simp] theorem births_addWeak (h : Heap α) (p : Ptr) : (h.addWeak p).births = h.births := rfl

@[simp] theorem births_dropWeak (h : Heap α) (p : Ptr) : (h.dropWeak p).births = h.births := rfl

@[simp] theorem births_dropStrong (h : Heap α) (p : Ptr) : (h.dropStrong p).2.births = h.births := by
  unfold dropStrong
  split <;> rfl

theorem alloc_births {h k : Heap α} {a : Addr} {x : α} {p : Ptr} (made : h.alloc a x = some (p, k)) :
    p.birth = h.births ∧ k.births = h.births + 1 := by
  unfold alloc at made
  split at made
  · cases made
    exact ⟨rfl, rfl⟩
  · cases made

theorem upgrade_births {h k : Heap α} {p : Ptr} (taken : h.upgrade p = some k) :
    k.births = h.births := by
  unfold upgrade at taken
  split at taken
  · cases taken
  · cases taken
    rfl

end Heap

/-- What the counts and the value of a block say about the pointers to it. -/
structure Block.Fits {α : Type} (b : Block α) (strong weak : Nat) : Prop where
  strong : b.strong = strong
  weak : b.weak = weak
  needed : 0 < b.strong + b.weak
  valued : b.value.isSome = true ↔ 0 < b.strong

/-- The heap is just what all the strong and weak pointers there are make it to be. -/
structure Owned {α : Type} (h : Heap α) (strong weak : List Ptr) : Prop where
  allocated : ∀ p ∈ strong ++ weak, ∃ b, h.blocks p.addr = some b ∧ b.birth = p.birth
  fits : ∀ a b, h.blocks a = some b → b.Fits (strong.count ⟨a, b.birth⟩) (weak.count ⟨a, b.birth⟩)
  born : ∀ a b, h.blocks a = some b → b.birth < h.births
  distinct : ∀ a b c d, h.blocks a = some b → h.blocks c = some d → b.birth = d.birth → a = c

namespace Owned
variable {α : Type} {h : Heap α} {strong weak : List Ptr} {p q : Ptr}

theorem empty : Owned (α := α) Heap.empty [] [] where
  allocated := by simp
  fits := by simp [Heap.empty]
  born := by simp [Heap.empty]
  distinct := by simp [Heap.empty]

theorem perm {strong' weak' : List Ptr} (owned : Owned h strong weak) (hs : strong.Perm strong')
    (hw : weak.Perm weak') : Owned h strong' weak' where
  allocated q hq := owned.allocated q ((hs.append hw).mem_iff.mpr hq)
  fits a b found := by
    rw [← hs.count_eq, ← hw.count_eq]
    exact owned.fits a b found
  born := owned.born
  distinct := owned.distinct

/-- Pointers made for one allocation are at one address. -/
theorem eq_of_addr (owned : Owned h strong weak) (hp : p ∈ strong ++ weak) (hq : q ∈ strong ++ weak)
    (same : p.addr = q.addr) : p = q := by
  obtain ⟨b, found, birth⟩ := owned.allocated p hp
  obtain ⟨c, found', birth'⟩ := owned.allocated q hq
  rw [same, found', Option.some_inj] at found
  cases p
  cases q
  subst found
  simp_all

theorem eq_of_birth (owned : Owned h strong weak) (hp : p ∈ strong ++ weak)
    (hq : q ∈ strong ++ weak) (same : p.birth = q.birth) : p = q := by
  obtain ⟨b, found, birth⟩ := owned.allocated p hp
  obtain ⟨c, found', birth'⟩ := owned.allocated q hq
  exact owned.eq_of_addr hp hq
    (owned.distinct _ _ _ _ found found' (birth.trans (same.trans birth'.symm)))

theorem birth_lt (owned : Owned h strong weak) (hp : p ∈ strong ++ weak) : p.birth < h.births := by
  obtain ⟨b, found, birth⟩ := owned.allocated p hp
  exact birth ▸ owned.born _ _ found

/-- The block of a pointer, with what is known of it. -/
theorem block (owned : Owned h strong weak) (hp : p ∈ strong ++ weak) :
    ∃ b, h.blocks p.addr = some b ∧ b.birth = p.birth ∧ b.Fits (strong.count p) (weak.count p) := by
  obtain ⟨b, found, birth⟩ := owned.allocated p hp
  have fits := owned.fits _ b found
  rw [birth] at fits
  exact ⟨b, found, birth, fits⟩

theorem strongCount_eq (owned : Owned h strong weak) (hp : p ∈ strong ++ weak) :
    h.strongCount p = strong.count p := by
  obtain ⟨b, found, -, fits⟩ := owned.block hp
  simp only [Heap.strongCount, found, fits.strong]

theorem value_isSome (owned : Owned h strong weak) (hp : p ∈ strong ++ weak) :
    (h.value p).isSome = true ↔ p ∈ strong := by
  obtain ⟨b, found, -, fits⟩ := owned.block hp
  rw [Heap.value, found, Option.bind_some, fits.valued, fits.strong, List.count_pos_iff]

/-- One block changes, with the pointers to it. -/
theorem alter {strong' weak' : List Ptr} {b : Block α} {f : Block α → Option (Block α)}
    (owned : Owned h strong weak) (found : h.blocks p.addr = some b) (birth : b.birth = p.birth)
    (others : ∀ q, q ≠ p → strong'.count q = strong.count q ∧ weak'.count q = weak.count q)
    (kept : ∀ c, f b = some c → c.birth = b.birth ∧ c.Fits (strong'.count p) (weak'.count p))
    (freed : f b = none → strong'.count p = 0 ∧ weak'.count p = 0) :
    Owned (h.alter p.addr f) strong' weak' := by
  have blocks := Heap.blocks_alter (f := f) found
  have elsewhere : ∀ a, a ≠ p.addr → (h.alter p.addr f).blocks a = h.blocks a := fun a ne => by
    rw [blocks, Function.update_of_ne ne]
  have here : (h.alter p.addr f).blocks p.addr = f b := by rw [blocks, Function.update_self]
  -- a block of the new heap was there before, and its birth is the same
  have earlier : ∀ a c, (h.alter p.addr f).blocks a = some c →
      ∃ d, h.blocks a = some d ∧ d.birth = c.birth := by
    intro a c found'
    by_cases same : a = p.addr
    · subst same
      rw [here] at found'
      exact ⟨b, found, ((kept c found').1).symm⟩
    · exact ⟨c, (elsewhere a same).symm.trans found', rfl⟩
  constructor
  · intro q hq
    have positive : 0 < strong'.count q + weak'.count q := by
      rcases List.mem_append.mp hq with hq | hq
      · have := List.count_pos_iff.mpr hq
        omega
      · have := List.count_pos_iff.mpr hq
        omega
    by_cases same : q = p
    · subst same
      cases next : f b with
      | none =>
        have := freed next
        omega
      | some c => exact ⟨c, here.trans next, ((kept c next).1).trans birth⟩
    · rw [(others q same).1, (others q same).2] at positive
      have member : q ∈ strong ++ weak := by
        rw [List.mem_append, ← List.count_pos_iff, ← List.count_pos_iff]
        omega
      obtain ⟨c, foundq, birthq⟩ := owned.allocated q member
      have apart : q.addr ≠ p.addr := by
        intro eq
        rw [eq, found, Option.some_inj] at foundq
        subst foundq
        refine same ?_
        cases q
        cases p
        simp_all
      exact ⟨c, (elsewhere _ apart).trans foundq, birthq⟩
  · intro a c found'
    by_cases same : a = p.addr
    · subst same
      rw [here] at found'
      obtain ⟨birth', fits⟩ := kept c found'
      rw [birth', birth]
      exact fits
    · have old := (elsewhere a same).symm.trans found'
      have apart : (⟨a, c.birth⟩ : Ptr) ≠ p := fun eq => same (congrArg Ptr.addr eq)
      rw [(others _ apart).1, (others _ apart).2]
      exact owned.fits a c old
  · intro a c found'
    obtain ⟨d, old, same⟩ := earlier a c found'
    exact same ▸ owned.born a d old
  · intro a c a' c' found₁ found₂ same
    obtain ⟨d, old, eq⟩ := earlier a c found₁
    obtain ⟨d', old', eq'⟩ := earlier a' c' found₂
    exact owned.distinct _ _ _ _ old old' (eq.trans (same.trans eq'.symm))

theorem addWeak (owned : Owned h strong weak) (hp : p ∈ strong ++ weak) :
    Owned (h.addWeak p) strong (p :: weak) := by
  obtain ⟨b, found, birth, fits⟩ := owned.block hp
  refine owned.alter found birth (fun q ne => ⟨rfl, List.count_cons_of_ne ne.symm⟩) ?_ (by simp)
  rintro c ⟨⟩
  refine ⟨rfl, fits.strong, ?_, Nat.succ_pos _, fits.valued⟩
  rw [List.count_cons_self]
  exact congrArg (· + 1) fits.weak

theorem upgrade {k : Heap α} (owned : Owned h strong weak) (hp : p ∈ strong ++ weak)
    (taken : h.upgrade p = some k) : Owned k (p :: strong) weak := by
  obtain ⟨b, found, birth, fits⟩ := owned.block hp
  have alive : h.strongCount p ≠ 0 := by
    intro none
    rw [Heap.upgrade, if_pos none] at taken
    cases taken
  rw [Heap.upgrade, if_neg alive] at taken
  cases taken
  have positive : 0 < b.strong := by
    rw [Heap.strongCount, found] at alive
    exact Nat.pos_of_ne_zero alive
  refine owned.alter found birth (fun q ne => ⟨List.count_cons_of_ne ne.symm, rfl⟩) ?_ (by simp)
  rintro c ⟨⟩
  refine ⟨rfl, ?_, fits.weak, Nat.lt_of_lt_of_le (Nat.succ_pos _) (Nat.le_add_right _ _), ?_⟩
  · rw [List.count_cons_self]
    exact congrArg (· + 1) fits.strong
  · exact ⟨fun _ => Nat.succ_pos _, fun _ => fits.valued.mpr positive⟩

theorem modify {f : α → α} (owned : Owned h strong weak) (hp : p ∈ strong ++ weak) :
    Owned (h.modify p f) strong weak := by
  obtain ⟨b, found, birth, fits⟩ := owned.block hp
  refine owned.alter found birth (fun q _ => ⟨rfl, rfl⟩) ?_ (by simp)
  rintro c ⟨⟩
  exact ⟨rfl, fits.strong, fits.weak, fits.needed, by simpa using fits.valued⟩

/-- A block that lost a pointer is freed or still needed. -/
theorem settle {b : Block α} {f : Block α → Block α} {strong' weak' : List Ptr}
    (owned : Owned h strong weak) (found : h.blocks p.addr = some b) (birth : b.birth = p.birth)
    (others : ∀ q, q ≠ p → strong'.count q = strong.count q ∧ weak'.count q = weak.count q)
    (same : (f b).birth = b.birth) (hs : (f b).strong = strong'.count p)
    (hw : (f b).weak = weak'.count p) (valued : (f b).value.isSome = true ↔ 0 < (f b).strong) :
    Owned (h.alter p.addr fun b => (f b).settle) strong' weak' := by
  refine owned.alter found birth others ?_ ?_
  · intro c taken
    unfold Block.settle at taken
    split at taken
    · cases taken
    · rename_i needed
      cases taken
      exact ⟨same, hs, hw, by omega, valued⟩
  · intro gone
    unfold Block.settle at gone
    split at gone
    · rename_i both
      exact ⟨hs.symm.trans both.1, hw.symm.trans both.2⟩
    · cases gone

theorem dropWeak (owned : Owned h strong (p :: weak)) : Owned (h.dropWeak p) strong weak := by
  obtain ⟨b, found, birth, fits⟩ := owned.block (List.mem_append_right strong List.mem_cons_self)
  refine owned.settle found birth (fun q ne => ⟨rfl, (List.count_cons_of_ne ne.symm).symm⟩) rfl
    fits.strong ?_ fits.valued
  have counted := fits.weak
  rw [List.count_cons_self] at counted
  exact congrArg (· - 1) counted

theorem dropStrong (owned : Owned h (p :: strong) weak) : Owned (h.dropStrong p).2 strong weak := by
  obtain ⟨b, found, birth, fits⟩ := owned.block (List.mem_append_left weak List.mem_cons_self)
  have counted : h.strongCount p = b.strong := by rw [Heap.strongCount, found]
  have others : ∀ q, q ≠ p → strong.count q = (p :: strong).count q ∧ weak.count q = weak.count q :=
    fun q ne => ⟨(List.count_cons_of_ne ne.symm).symm, rfl⟩
  have less : b.strong = strong.count p + 1 := by rw [fits.strong, List.count_cons_self]
  unfold Heap.dropStrong
  split
  · rename_i one
    refine owned.settle found birth others rfl ?_ fits.weak (by simp)
    show 0 = strong.count p
    omega
  · rename_i several
    refine owned.alter found birth others ?_ (by simp)
    rintro c ⟨⟩
    have left : 0 < b.strong - 1 := by omega
    exact ⟨rfl, by show b.strong - 1 = strong.count p; omega, fits.weak, Nat.add_pos_left left _,
      ⟨fun _ => left, fun _ => fits.valued.mpr (less ▸ Nat.succ_pos _)⟩⟩

/-- The value leaves with the last strong pointer. -/
theorem dropStrong_value (owned : Owned h (p :: strong) weak) :
    (h.dropStrong p).1 = if p ∈ strong then none else h.value p := by
  have counted := owned.strongCount_eq (List.mem_append_left weak List.mem_cons_self)
  rw [List.count_cons_self] at counted
  unfold Heap.dropStrong
  by_cases member : p ∈ strong
  · have := List.count_pos_iff.mpr member
    rw [if_neg (by omega), if_pos member]
  · rw [if_pos (by rw [counted, List.count_eq_zero.mpr member]), if_neg member]

theorem alloc {a : Addr} {x : α} {k : Heap α} (owned : Owned h strong weak)
    (made : h.alloc a x = some (p, k)) :
    Owned k (p :: strong) weak ∧ p.birth = h.births ∧ k.births = h.births + 1 ∧
      k.value p = some x := by
  unfold Heap.alloc at made
  split at made
  · rename_i free
    cases made
    have unused : ∀ q ∈ strong ++ weak, q.addr ≠ a := by
      intro q hq same
      obtain ⟨b, found, -⟩ := owned.allocated q hq
      rw [same, free] at found
      cases found
    have unborn : ∀ q ∈ strong ++ weak, q.birth ≠ h.births :=
      fun q hq => Nat.ne_of_lt (owned.birth_lt hq)
    -- the blocks are the new one and those of before
    have blocks : ∀ c b, Function.update h.blocks a (some ⟨h.births, some x, 1, 0⟩) c = some b →
        (c = a ∧ b = ⟨h.births, some x, 1, 0⟩) ∨ (c ≠ a ∧ h.blocks c = some b) := by
      intro c b found
      by_cases same : c = a
      · subst same
        rw [Function.update_self, Option.some_inj] at found
        exact .inl ⟨rfl, found.symm⟩
      · rw [Function.update_of_ne same] at found
        exact .inr ⟨same, found⟩
    refine ⟨⟨?_, ?_, ?_, ?_⟩, rfl, rfl, by simp [Heap.value]⟩
    · intro q hq
      rw [List.cons_append, List.mem_cons] at hq
      rcases hq with rfl | hq
      · exact ⟨_, Function.update_self .., rfl⟩
      · obtain ⟨b, found, birth⟩ := owned.allocated q hq
        exact ⟨b, (Function.update_of_ne (unused q hq) _ _).trans found, birth⟩
    · intro c b found
      rcases blocks c b found with ⟨rfl, rfl⟩ | ⟨apart, found⟩
      · have fresh : (⟨c, h.births⟩ : Ptr) ∉ strong ++ weak := fun member => unborn _ member rfl
        have noStrong := List.count_eq_zero.mpr (fun member => fresh (List.mem_append_left weak member))
        have noWeak := List.count_eq_zero.mpr (fun member => fresh (List.mem_append_right strong member))
        exact ⟨by rw [List.count_cons_self, noStrong], noWeak.symm, Nat.one_pos, by simp⟩
      · have ne : (⟨c, b.birth⟩ : Ptr) ≠ ⟨a, h.births⟩ := fun eq => apart (congrArg Ptr.addr eq)
        rw [List.count_cons_of_ne ne.symm]
        exact owned.fits c b found
    · intro c b found
      rcases blocks c b found with ⟨rfl, rfl⟩ | ⟨-, found⟩
      · exact Nat.lt_succ_self _
      · exact Nat.lt_succ_of_lt (owned.born c b found)
    · intro c b c' b' found found' same
      rcases blocks c b found with ⟨rfl, rfl⟩ | ⟨-, old⟩
      · rcases blocks c' b' found' with ⟨rfl, -⟩ | ⟨-, old'⟩
        · rfl
        · exact absurd same.symm (Nat.ne_of_lt (owned.born _ _ old'))
      · rcases blocks c' b' found' with ⟨rfl, rfl⟩ | ⟨-, old'⟩
        · exact absurd same (Nat.ne_of_lt (owned.born _ _ old))
        · exact owned.distinct _ _ _ _ old old' same
  · cases made

/-! Values. -/

theorem value_alter (h : Heap α) {f : Block α → Option (Block α)} (q : Ptr)
    (same : ∀ b, h.blocks p.addr = some b → (f b).bind Block.value = b.value) :
    (h.alter p.addr f).value q = h.value q := by
  unfold Heap.value Heap.alter
  dsimp only
  by_cases here : q.addr = p.addr
  · rw [here, Function.update_self]
    cases found : h.blocks p.addr with
    | none => rfl
    | some b => exact same b found
  · rw [Function.update_of_ne here]

/-- Another pointer does not see the change. -/
theorem value_apart (owned : Owned h strong weak) (hp : p ∈ strong ++ weak) (hq : q ∈ strong ++ weak)
    (ne : q ≠ p) (f : Block α → Option (Block α)) : (h.alter p.addr f).value q = h.value q := by
  have apart : q.addr ≠ p.addr := fun same => ne (owned.eq_of_addr hq hp same)
  unfold Heap.value Heap.alter
  dsimp only
  rw [Function.update_of_ne apart]

@[simp] theorem value_addWeak (h : Heap α) (p q : Ptr) : (h.addWeak p).value q = h.value q :=
  value_alter h q fun _ _ => rfl

theorem value_upgrade {k : Heap α} (taken : h.upgrade p = some k) (q : Ptr) :
    k.value q = h.value q := by
  unfold Heap.upgrade at taken
  split at taken
  · cases taken
  · cases taken
    exact value_alter h q fun _ _ => rfl

theorem value_dropWeak (owned : Owned h strong weak) (hp : p ∈ strong ++ weak) (q : Ptr) :
    (h.dropWeak p).value q = h.value q := by
  obtain ⟨b, found, -, fits⟩ := owned.block hp
  refine value_alter h q fun c here => ?_
  rw [found, Option.some_inj] at here
  subst here
  unfold Block.settle
  split
  · rename_i both
    rw [Option.bind_none]
    refine (Option.not_isSome_iff_eq_none.mp fun value => ?_).symm
    exact Nat.ne_of_gt (fits.valued.mp value) both.1
  · rfl

theorem value_modify (owned : Owned h strong weak) (hp : p ∈ strong ++ weak) (f : α → α)
    (hq : q ∈ strong ++ weak) :
    (h.modify p f).value q = if q = p then (h.value p).map f else h.value q := by
  split
  · rename_i same
    subst same
    obtain ⟨b, found, -⟩ := owned.block hp
    rw [Heap.modify, Heap.value, Heap.blocks_alter found, Function.update_self, Heap.value, found]
    rfl
  · rename_i ne
    exact owned.value_apart hp hq ne _

theorem value_dropStrong (owned : Owned h (p :: strong) weak) (hq : q ∈ strong) :
    (h.dropStrong p).2.value q = h.value q := by
  have hp : p ∈ (p :: strong) ++ weak := List.mem_append_left weak List.mem_cons_self
  by_cases same : q = p
  · subst same
    have counted := owned.strongCount_eq hp
    rw [List.count_cons_self] at counted
    have := List.count_pos_iff.mpr hq
    rw [Heap.dropStrong, if_neg (by omega)]
    exact value_alter h q fun _ _ => rfl
  · have hq' : q ∈ (p :: strong) ++ weak := List.mem_append_left weak (List.mem_cons_of_mem p hq)
    unfold Heap.dropStrong
    split
    · exact owned.value_apart hp hq' same _
    · exact owned.value_apart hp hq' same _

theorem value_alloc {a : Addr} {x : α} {k : Heap α} (owned : Owned h strong weak)
    (made : h.alloc a x = some (p, k)) (hq : q ∈ strong ++ weak) : k.value q = h.value q := by
  obtain ⟨b, found, -⟩ := owned.allocated q hq
  unfold Heap.alloc at made
  split at made
  · rename_i free
    cases made
    have apart : q.addr ≠ a := by
      intro same
      rw [same, free] at found
      cases found
    exact congrArg (Option.bind · Block.value) (Function.update_of_ne apart _ _)
  · cases made

end Owned

/-- The values that strong pointers keep, each once. -/
def Heap.contents {α : Type} (h : Heap α) (strong : List Ptr) : List α :=
  strong.dedup.filterMap h.value

namespace Owned
variable {α : Type} {h : Heap α} {strong weak : List Ptr} {p : Ptr}

theorem contents_perm {strong' : List Ptr} (h : Heap α) (same : strong.Perm strong') :
    (h.contents strong).Perm (h.contents strong') :=
  same.dedup.filterMap h.value

theorem contents_congr {k : Heap α} (same : ∀ q ∈ strong, k.value q = h.value q) :
    k.contents strong = h.contents strong :=
  List.filterMap_congr fun q hq => same q (List.mem_dedup.mp hq)

theorem mem_contents {x : α} : x ∈ h.contents strong ↔ ∃ p ∈ strong, h.value p = some x := by
  simp only [Heap.contents, List.mem_filterMap, List.mem_dedup]

theorem contents_again (h : Heap α) (hp : p ∈ strong) :
    h.contents (p :: strong) = h.contents strong := by
  rw [Heap.contents, List.dedup_cons_of_mem hp, Heap.contents]

theorem contents_alloc {a : Addr} {x : α} {k : Heap α} (owned : Owned h strong weak)
    (made : h.alloc a x = some (p, k)) : k.contents (p :: strong) = x :: h.contents strong := by
  obtain ⟨-, birth, -, value⟩ := owned.alloc made
  have fresh : p ∉ strong := fun member =>
    Nat.lt_irrefl _ (birth ▸ owned.birth_lt (List.mem_append_left weak member))
  rw [Heap.contents, List.dedup_cons_of_notMem fresh, List.filterMap_cons_some value]
  exact congrArg (x :: ·)
    (contents_congr fun q hq => owned.value_alloc made (List.mem_append_left weak hq))

/-- What the last strong pointer gives up is all that the heap loses. -/
theorem contents_dropStrong (owned : Owned h (p :: strong) weak) :
    h.contents (p :: strong) = (h.dropStrong p).1.toList ++ (h.dropStrong p).2.contents strong := by
  have rest : (h.dropStrong p).2.contents strong = h.contents strong :=
    contents_congr fun q hq => owned.value_dropStrong hq
  rw [rest, owned.dropStrong_value]
  by_cases member : p ∈ strong
  · rw [if_pos member, contents_again h member]
    rfl
  · obtain ⟨x, value⟩ := Option.isSome_iff_exists.mp
      ((owned.value_isSome (List.mem_append_left weak List.mem_cons_self)).mpr List.mem_cons_self)
    rw [if_neg member, Heap.contents, List.dedup_cons_of_notMem member,
      List.filterMap_cons_some value, value]
    rfl

/-- A change in place does not show in what it keeps. -/
theorem map_contents_modify {β : Type} {f : α → α} {g : α → β} (owned : Owned h strong weak)
    (hp : p ∈ strong ++ weak) (same : ∀ x, h.value p = some x → g (f x) = g x) :
    ((h.modify p f).contents strong).map g = (h.contents strong).map g := by
  simp only [Heap.contents, List.map_filterMap]
  refine List.filterMap_congr fun q hq => ?_
  rw [owned.value_modify hp f (List.mem_append_left weak (List.mem_dedup.mp hq))]
  split
  · rename_i eq
    subst eq
    cases value : h.value q with
    | none => rfl
    | some x => exact congrArg some (same x value)
  · rfl

end Owned
end Juggle.Sharing
