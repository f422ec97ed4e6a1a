import Ak24.ListModel
import Ak24.Transition

namespace Ak24.ListGrowth

open Blocks ListModel Transition

variable {β : Type}

structure Growth where
  code : Int
  list : ListBase
  requested : Option Nat
  deriving DecidableEq, Repr

def itemBytes (capacity : Nat) : Nat := 8 * capacity % 2 ^ 64

/-- The call with its byte sizes: `alloc` answers whether an array of a size is
granted. `none` is a loop that is not over after `fuel` rounds. -/
def listEnsureCapacity (fuel : Nat) (l : ListBase) (required : Nat) (alloc : Nat → Bool) : Option Growth :=
  if l.capacity ≥ required then some ⟨0, l, none⟩
  else
    match Words.doubling 32 fuel (if l.capacity = 0 then listInitialCapacity else l.capacity) required with
    | none => none
    | some newCapacity =>
      let bytes := itemBytes newCapacity
      if !alloc bytes then some ⟨-1, l, some bytes⟩
      else some ⟨0, { l with items := Blocks.realloc l.items (bytes / 8), capacity := newCapacity }, some bytes⟩

/-- The capacities that an empty list grows to. -/
inductive Grown : Nat → Prop
  | init : Grown listInit.capacity
  | grow {l : ListBase} {fuel required : Nat} {alloc : Nat → Bool} {growth : Growth} (h : Grown l.capacity)
    (hcall : listEnsureCapacity fuel l required alloc = some growth) : Grown growth.list.capacity

/-- The loop ends, and the capacity suffices if the call returns 0; the size of the
array has not wrapped. -/
def Suffices (l : ListBase) (required : Nat) (alloc : Nat → Bool) : Prop :=
  ∃ fuel growth, listEnsureCapacity fuel l required alloc = some growth ∧
    (growth.code = 0 → required ≤ growth.list.capacity ∧
      ∀ bytes, growth.requested = some bytes → bytes = 8 * growth.list.capacity)

section Loop

variable {l : ListBase} {fuel required : Nat} {alloc : Nat → Bool} {growth : Growth}

def Doubled (capacity : Nat) : Prop := capacity = 0 ∨ ∃ k, 3 ≤ k ∧ k < 32 ∧ capacity = 2 ^ k

theorem Doubled.start (h : Doubled l.capacity) :
    ∃ k, 3 ≤ k ∧ k < 32 ∧ (if l.capacity = 0 then listInitialCapacity else l.capacity) = 2 ^ k := by
  rcases h with hzero | ⟨k, hl, hu, hk⟩
  · exact ⟨3, le_rfl, by norm_num, if_pos hzero⟩
  · have hpos := Nat.two_pow_pos k
    exact ⟨k, hl, hu, by rw [if_neg (by omega), hk]⟩

theorem Doubled.le (h : Doubled l.capacity) : l.capacity ≤ 2 ^ 31 := by
  rcases h with hzero | ⟨k, -, hu, hk⟩
  · omega
  · rw [hk]
    exact Nat.pow_le_pow_right (by norm_num) (by omega)

theorem itemBytes_eq {k : Nat} (hk : k < 32) : itemBytes (2 ^ k) = 8 * 2 ^ k := by
  have hpow : 2 ^ k < 2 ^ 32 := Nat.pow_lt_pow_right (by norm_num) hk
  exact Nat.mod_eq_of_lt (by omega)

theorem itemBytes_cells {k : Nat} (hk : k < 32) : itemBytes (2 ^ k) / 8 = 2 ^ k := by
  rw [itemBytes_eq hk]
  exact Nat.mul_div_cancel_left _ (by norm_num)

/-- What a call can do: nothing, be refused an array, or get one of a power of two. -/
theorem listEnsureCapacity_cases (hl : Doubled l.capacity)
    (h : listEnsureCapacity fuel l required alloc = some growth) :
    (required ≤ l.capacity ∧ growth = ⟨0, l, none⟩) ∨
      ∃ k, 3 ≤ k ∧ k < 32 ∧ l.capacity < required ∧ required ≤ 2 ^ k ∧
        ((alloc (8 * 2 ^ k) = false ∧ growth = ⟨-1, l, some (8 * 2 ^ k)⟩) ∨
          alloc (8 * 2 ^ k) = true ∧
            growth = ⟨0, { l with items := Blocks.realloc l.items (2 ^ k), capacity := 2 ^ k }, some (8 * 2 ^ k)⟩) := by
  rw [listEnsureCapacity] at h
  by_cases hroom : l.capacity ≥ required
  · rw [if_pos hroom] at h
    cases h
    exact .inl ⟨hroom, rfl⟩
  · obtain ⟨k, hk3, hk, hstart⟩ := hl.start
    rw [if_neg hroom, hstart] at h
    cases hloop : Words.doubling 32 fuel (2 ^ k) required with
    | none =>
        rw [hloop] at h
        cases h
    | some newCapacity =>
        obtain ⟨hge, j, hj, hj32, rfl⟩ := Words.doubling_pow hk (by omega) hloop
        rw [hloop] at h
        simp only [itemBytes_cells hj32] at h
        simp only [itemBytes_eq hj32] at h
        refine .inr ⟨j, by omega, hj32, by omega, hge, ?_⟩
        split_ifs at h with hgrant
        · cases h
          exact .inl ⟨by simpa using hgrant, rfl⟩
        · cases h
          exact .inr ⟨by simpa using hgrant, rfl⟩

theorem Grown.doubled {capacity : Nat} (h : Grown capacity) : Doubled capacity := by
  induction h with
  | init => exact .inl rfl
  | grow _ hcall ih =>
      rcases listEnsureCapacity_cases ih hcall with ⟨-, rfl⟩ | ⟨k, hl, hu, -, -, ⟨-, rfl⟩ | ⟨-, rfl⟩⟩
      · exact ih
      · exact ih
      · exact .inr ⟨k, hl, hu, rfl⟩

theorem listEnsureCapacity_ends (hl : Doubled l.capacity) (hrequired : required ≤ 2 ^ 31) :
    ∃ growth, listEnsureCapacity doublings l required alloc = some growth := by
  rw [listEnsureCapacity]
  by_cases hroom : l.capacity ≥ required
  · exact ⟨_, if_pos hroom⟩
  · obtain ⟨k, -, -, hstart⟩ := hl.start
    have hpos := Nat.two_pow_pos k
    have hfuel : required ≤ 2 ^ k * 2 ^ doublings := by
      simp only [doublings]
      omega
    obtain ⟨c, hloop, -, -⟩ := Words.doubling_ok (w := 32) hpos (by omega) hfuel
    rw [if_neg hroom, hstart, hloop]
    dsimp only
    split
    · exact ⟨_, rfl⟩
    · exact ⟨_, rfl⟩

theorem listEnsureCapacity_endless (hl : Doubled l.capacity) (hrequired : 2 ^ 31 < required) (fuel : Nat)
    (alloc : Nat → Bool) : listEnsureCapacity fuel l required alloc = none := by
  have hle := hl.le
  obtain ⟨k, -, hk, hstart⟩ := hl.start
  rw [listEnsureCapacity, if_neg (by omega), hstart, Words.doubling_endless hk hrequired]

/-- The call without its byte sizes, which is that of the calls on a list. -/
theorem listEnsureCapacity_refines (hl : Doubled l.capacity) (required : Nat) (granted : Bool) :
    ListModel.listEnsureCapacity l required granted =
      (listEnsureCapacity doublings l required fun _ => granted).map fun growth => (growth.code, growth.list) := by
  rw [ListModel.listEnsureCapacity, listEnsureCapacity]
  by_cases hroom : l.capacity ≥ required
  · rw [if_pos hroom, if_pos hroom]
    rfl
  · obtain ⟨k, -, hk, hstart⟩ := hl.start
    rw [if_neg hroom, if_neg hroom, hstart]
    cases hloop : Words.doubling 32 doublings (2 ^ k) required with
    | none => rfl
    | some newCapacity =>
        obtain ⟨-, j, -, hj, rfl⟩ := Words.doubling_pow hk (by omega) hloop
        simp only [itemBytes_cells hj]
        cases granted <;> rfl

end Loop

section Runs

variable {s s' : State β} {grants : Grants} {heap : Objects.Heap β} {trace : List (Event β)}

/-- What a call on a list does to the capacity: it leaves it, or it grows. -/
def Grows (l l' : ListBase) : Prop :=
  l'.capacity = l.capacity ∨ ∃ required granted code grown,
    ListModel.listEnsureCapacity l required granted = some (code, grown) ∧ l'.capacity = grown.capacity

theorem listPush_grows {value : β} {code : Int} (h : listPush s value grants = some (code, s')) :
    Grows s.list s'.list := by
  rw [listPush] at h
  cases hgrow : ListModel.listEnsureCapacity s.list ((s.list.count + 1) % 2 ^ 32) grants.growth with
  | none =>
      rw [hgrow] at h
      cases h
  | some grown =>
      refine .inr ⟨_, _, grown.1, grown.2, hgrow, ?_⟩
      simp only [hgrow] at h
      split_ifs at h
      · cases h
        rfl
      · cases h
        rfl
      · split at h
        · cases h
        · cases h
          rfl

theorem listInsert_grows {index : Nat} {value : β} {code : Int}
    (h : listInsert s index value grants = some (code, s')) : Grows s.list s'.list := by
  rw [listInsert] at h
  by_cases hindex : index > s.list.count
  · rw [if_pos hindex] at h
    cases h
    exact .inl rfl
  · rw [if_neg hindex] at h
    cases hgrow : ListModel.listEnsureCapacity s.list ((s.list.count + 1) % 2 ^ 32) grants.growth with
    | none =>
        rw [hgrow] at h
        cases h
    | some grown =>
        refine .inr ⟨_, _, grown.1, grown.2, hgrow, ?_⟩
        simp only [hgrow] at h
        split_ifs at h
        · cases h
          rfl
        · cases h
          rfl
        · simp only [Option.bind_eq_bind, Option.bind_eq_some_iff] at h
          obtain ⟨items, -, items', -, heq⟩ := h
          cases heq
          rfl

theorem rotate_capacity {loops : ListBase → Nat → Option (List (Option Nat))} {n : Nat} {granted : Bool} {code : Int}
    (h : rotate loops s n granted = some (code, s')) : s'.list.capacity = s.list.capacity := by
  rw [rotate] at h
  split_ifs at h
  · cases h
    rfl
  · cases h
    rfl
  · cases h
    rfl
  · obtain ⟨items, -, heq⟩ := Option.map_eq_some_iff.mp h
    cases heq
    rfl

theorem listPop_capacity {p : Option Nat} (h : listPop s = some (p, s')) : s'.list.capacity = s.list.capacity := by
  rw [listPop] at h
  split_ifs at h
  · cases h
    rfl
  · obtain ⟨p, -, heq⟩ := Option.map_eq_some_iff.mp h
    cases heq
    rfl

theorem listSet_capacity {index : Nat} {value : β} {code : Int} (h : listSet s index value = some (code, s')) :
    s'.list.capacity = s.list.capacity := by
  rw [listSet] at h
  split_ifs at h
  · cases h
    rfl
  · obtain ⟨p, -, hstore⟩ := Option.bind_eq_some_iff.mp h
    split at hstore
    · cases hstore
    · cases hstore
      rfl

theorem listRemove_capacity {index : Nat} {code : Int} (h : listRemove s index = some (code, s')) :
    s'.list.capacity = s.list.capacity := by
  rw [listRemove] at h
  split_ifs at h
  · cases h
    rfl
  · simp only [Option.bind_eq_bind, Option.bind_eq_some_iff] at h
    obtain ⟨p, -, heap, -, items, -, heq⟩ := h
    cases heq
    rfl

theorem exec_grows {op : Op β} {answer : Answer β} (h : exec s grants op = some (answer, s')) :
    Grows s.list s'.list := by
  cases op with
  | push value =>
      obtain ⟨r, hpush, heq⟩ := Option.map_eq_some_iff.mp h
      cases heq
      exact listPush_grows hpush
  | insert index value =>
      obtain ⟨r, hinsert, heq⟩ := Option.map_eq_some_iff.mp h
      cases heq
      exact listInsert_grows hinsert
  | rotateLeft n | rotateRight n =>
      obtain ⟨r, hrotate, heq⟩ := Option.map_eq_some_iff.mp h
      cases heq
      exact .inl (rotate_capacity hrotate)
  | pop =>
      obtain ⟨r, hpop, hvalue⟩ := Option.bind_eq_some_iff.mp h
      obtain ⟨value, -, heq⟩ := Option.bind_eq_some_iff.mp hvalue
      cases heq
      exact .inl (listPop_capacity hpop)
  | get index =>
      obtain ⟨p, -, hvalue⟩ := Option.bind_eq_some_iff.mp h
      obtain ⟨value, -, heq⟩ := Option.bind_eq_some_iff.mp hvalue
      cases heq
      exact .inl rfl
  | set index value =>
      obtain ⟨r, hset, heq⟩ := Option.map_eq_some_iff.mp h
      cases heq
      exact .inl (listSet_capacity hset)
  | remove index =>
      obtain ⟨r, hremove, heq⟩ := Option.map_eq_some_iff.mp h
      cases heq
      exact .inl (listRemove_capacity hremove)
  | clear =>
      obtain ⟨r, hclear, heq⟩ := Option.map_eq_some_iff.mp h
      cases heq
      obtain ⟨heap, -, rfl⟩ := Option.map_eq_some_iff.mp hclear
      exact .inl rfl

theorem grown_of_run (hrun : Run Step ⟨listInit, heap⟩ trace s) : Grown s.list.capacity := by
  apply hrun.invariant (P := fun _ s => Grown s.list.capacity)
  · exact .init
  · rintro trace s events s' hs ⟨op, grants, answer, _, h⟩
    rcases exec_grows h with hsame | ⟨required, granted, code, grown, hgrow, hcapacity⟩
    · rwa [hsame]
    · rw [listEnsureCapacity_refines hs.doubled] at hgrow
      obtain ⟨growth, hcall, heq⟩ := Option.map_eq_some_iff.mp hgrow
      cases heq
      rw [hcapacity]
      exact hs.grow hcall

end Runs

/-- The lists of all runs have capacities that an empty list grows to; and from each
such capacity the call ends with enough room where the goal is not above the
highest power of two of an `unsigned`. -/
theorem listEnsureCapacity_suffices_iff (l : ListBase) (hl : Grown l.capacity) (required : Nat) (alloc : Nat → Bool) :
    (∀ (β : Type) (heap : Objects.Heap β) trace s, Run Step ⟨listInit, heap⟩ trace s → Grown s.list.capacity) ∧
      (Suffices l required alloc ↔ required ≤ 2 ^ 31) := by
  refine ⟨fun β heap trace s => grown_of_run, ?_⟩
  have hdoubled := hl.doubled
  constructor
  · rintro ⟨fuel, growth, hcall, -⟩
    by_contra hlt
    rw [listEnsureCapacity_endless hdoubled (by omega)] at hcall
    cases hcall
  · intro hrequired
    obtain ⟨growth, hcall⟩ : ∃ growth, listEnsureCapacity doublings l required alloc = some growth :=
      listEnsureCapacity_ends hdoubled hrequired
    refine ⟨doublings, growth, hcall, fun hcode => ?_⟩
    rcases listEnsureCapacity_cases hdoubled hcall with ⟨hroom, rfl⟩ | ⟨k, -, -, -, hge, ⟨-, rfl⟩ | ⟨-, rfl⟩⟩
    · exact ⟨hroom, fun _ hbytes => nomatch hbytes⟩
    · cases hcode
    · exact ⟨hge, fun _ hbytes => (Option.some.inj hbytes).symm⟩

theorem listEnsureCapacity_suffices_first : Grown listInit.capacity ∧ Suffices listInit 9 fun _ => true :=
  ⟨.init, (listEnsureCapacity_suffices_iff listInit .init 9 fun _ => true).2.mpr (by norm_num)⟩

/-- A list of `2 ^ 31` items that is full can never be asked for one more. -/
theorem listEnsureCapacity_loops_forever :
    ∃ l : ListBase, Grown l.capacity ∧ l.capacity = 2 ^ 31 ∧ l.count = 2 ^ 31 ∧ l.count + 1 < 2 ^ 32 ∧
      ∀ alloc, ¬Suffices l (l.count + 1) alloc := by
  obtain ⟨growth, hcall⟩ : ∃ growth, listEnsureCapacity doublings listInit (2 ^ 31) (fun _ => true) = some growth :=
    listEnsureCapacity_ends Grown.init.doubled (le_refl (2 ^ 31))
  have hgrown := Grown.init.grow hcall
  have hcapacity : growth.list.capacity = 2 ^ 31 := by
    have hle := hgrown.doubled.le
    rcases listEnsureCapacity_cases Grown.init.doubled hcall with
      ⟨hroom, -⟩ | ⟨k, -, -, -, hge, ⟨hrefused, -⟩ | ⟨-, rfl⟩⟩
    · exact absurd hroom (by norm_num [listInit])
    · cases hrefused
    · exact hle.antisymm hge
  have hfull : Doubled ({ growth.list with count := 2 ^ 31 } : ListBase).capacity := hgrown.doubled
  refine ⟨{ growth.list with count := 2 ^ 31 }, hgrown, hcapacity, rfl, by norm_num, ?_⟩
  rintro alloc ⟨fuel, growth', hcall', -⟩
  rw [listEnsureCapacity_endless hfull (by norm_num)] at hcall'
  cases hcall'

end Ak24.ListGrowth
