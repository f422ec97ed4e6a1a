import Mathlib

namespace Ak24.Objects

variable {α : Type}

/-- The objects of one kind, by the numbers of their allocations. A number is
given out once. -/
structure Heap (α : Type) where
  cells : Nat → Option α
  next : Nat
  fresh : ∀ i, next ≤ i → cells i = none

def Heap.empty (α : Type) : Heap α := ⟨fun _ => none, 0, fun _ _ => rfl⟩

theorem Heap.lt_next (h : Heap α) {i : Nat} {a : α} (hi : h.cells i = some a) : i < h.next := by
  by_contra hge
  rw [h.fresh i (by omega)] at hi
  cases hi

def Heap.alloc (h : Heap α) (a : α) : Heap α where
  cells := Function.update h.cells h.next (some a)
  next := h.next + 1
  fresh i hi := by
    rw [Function.update_of_ne (by omega), h.fresh i (by omega)]

def Heap.store (h : Heap α) (i : Nat) (a : α) : Heap α where
  cells := Function.update h.cells i ((h.cells i).map fun _ => a)
  next := h.next
  fresh j hj := by
    by_cases hji : j = i
    · subst j
      rw [Function.update_self, h.fresh i hj, Option.map_none]
    · rw [Function.update_of_ne hji, h.fresh j hj]

def Heap.free (h : Heap α) (i : Nat) : Heap α where
  cells := Function.update h.cells i none
  next := h.next
  fresh j hj := by
    by_cases hji : j = i
    · subst j
      rw [Function.update_self]
    · rw [Function.update_of_ne hji, h.fresh j hj]

section Lookup

variable (h : Heap α) (i j : Nat) (a : α)

@[simp]
theorem Heap.empty_cells : (Heap.empty α).cells j = none := rfl

@[simp]
theorem Heap.alloc_self : (h.alloc a).cells h.next = some a := by
  simp [Heap.alloc]

@[simp]
theorem Heap.alloc_next : (h.alloc a).next = h.next + 1 := rfl

@[simp]
theorem Heap.store_next : (h.store i a).next = h.next := rfl

@[simp]
theorem Heap.free_next : (h.free i).next = h.next := rfl

@[simp]
theorem Heap.free_self : (h.free i).cells i = none := by
  simp [Heap.free]

variable {h i j a}

theorem Heap.alloc_of_ne (hj : j ≠ h.next) : (h.alloc a).cells j = h.cells j :=
  Function.update_of_ne hj _ _

theorem Heap.alloc_old {b : α} (hj : h.cells j = some b) : (h.alloc a).cells j = some b := by
  rw [Heap.alloc_of_ne (h.lt_next hj).ne, hj]

theorem Heap.store_self {b : α} (hi : h.cells i = some b) : (h.store i a).cells i = some a := by
  simp [Heap.store, hi]

theorem Heap.store_of_ne (hj : j ≠ i) : (h.store i a).cells j = h.cells j :=
  Function.update_of_ne hj _ _

theorem Heap.store_same (hi : h.cells i = some a) : h.store i a = h := by
  obtain ⟨cells, next, fresh⟩ := h
  simp only [Heap.store, Heap.mk.injEq, and_true]
  dsimp only at hi
  rw [hi, Option.map_some, ← hi, Function.update_eq_self]

theorem Heap.free_of_ne (hj : j ≠ i) : (h.free i).cells j = h.cells j :=
  Function.update_of_ne hj _ _

theorem Heap.alloc_eq_some {b : α} (hj : (h.alloc a).cells j = some b) :
    (j = h.next ∧ b = a) ∨ h.cells j = some b := by
  by_cases hnew : j = h.next
  · rw [hnew, Heap.alloc_self, Option.some.injEq] at hj
    exact .inl ⟨hnew, hj.symm⟩
  · rw [Heap.alloc_of_ne hnew] at hj
    exact .inr hj

theorem Heap.free_eq_some (hj : (h.free i).cells j = some a) : j ≠ i ∧ h.cells j = some a := by
  have hji : j ≠ i := by
    rintro rfl
    rw [Heap.free_self] at hj
    cases hj
  rw [Heap.free_of_ne hji] at hj
  exact ⟨hji, hj⟩

theorem Heap.alloc_free_cells (h : Heap α) (a : α) : ((h.alloc a).free h.next).cells = h.cells := by
  funext j
  by_cases hj : j = h.next
  · rw [hj, Heap.free_self, h.fresh h.next le_rfl]
  · rw [Heap.free_of_ne hj, Heap.alloc_of_ne hj]

end Lookup

def Heap.view {β : Type} (f : α → β) (h : Heap α) : Nat → Option β := fun i => (h.cells i).map f

section View

variable {β : Type} {f : α → β} {h : Heap α} {i : Nat} {a b : α}

theorem Heap.view_alloc : (h.alloc a).view f = Function.update (h.view f) h.next (some (f a)) := by
  funext j
  by_cases hj : j = h.next
  · subst j
    simp [Heap.view]
  · rw [Heap.view, Heap.alloc_of_ne hj, Function.update_of_ne hj, Heap.view]

theorem Heap.view_store (hi : h.cells i = some b) : (h.store i a).view f = Function.update (h.view f) i (some (f a)) := by
  funext j
  by_cases hj : j = i
  · subst j
    rw [Heap.view, Heap.store_self hi, Function.update_self, Option.map_some]
  · rw [Heap.view, Heap.store_of_ne hj, Function.update_of_ne hj, Heap.view]

theorem Heap.view_free : (h.free i).view f = Function.update (h.view f) i none := by
  funext j
  by_cases hj : j = i
  · subst j
    simp [Heap.view]
  · rw [Heap.view, Heap.free_of_ne hj, Function.update_of_ne hj, Heap.view]

end View

def Heap.Stores (h : Heap α) (ptrs : List Nat) (xs : List α) : Prop := ptrs.map h.cells = xs.map some

section Stores

variable {h : Heap α} {ptrs : List Nat} {xs : List α} {i : Nat} {a : α}

theorem Heap.Stores.length_eq (hs : h.Stores ptrs xs) : ptrs.length = xs.length := by
  simpa using congrArg List.length hs

theorem Heap.Stores.getElem (hs : h.Stores ptrs xs) (hi : i < ptrs.length) (hi' : i < xs.length) :
    h.cells ptrs[i] = some xs[i] := by
  have hget := List.getElem_of_eq hs (i := i) (by simpa using hi)
  simpa using hget

theorem Heap.Stores.lt_next (hs : h.Stores ptrs xs) {p : Nat} (hp : p ∈ ptrs) : p < h.next := by
  obtain ⟨i, hi, rfl⟩ := List.getElem_of_mem hp
  exact h.lt_next (hs.getElem hi (hs.length_eq ▸ hi))

theorem Heap.Stores.congr {h' : Heap α} (hs : h.Stores ptrs xs) (hcells : ∀ p ∈ ptrs, h'.cells p = h.cells p) :
    h'.Stores ptrs xs := by
  rw [Heap.Stores, List.map_congr_left hcells]
  exact hs

theorem Heap.Stores.alloc (hs : h.Stores ptrs xs) (a : α) : (h.alloc a).Stores ptrs xs :=
  hs.congr fun _ hp => Heap.alloc_of_ne (hs.lt_next hp).ne

theorem Heap.Stores.free (hs : h.Stores ptrs xs) (hi : i ∉ ptrs) : (h.free i).Stores ptrs xs :=
  hs.congr fun _ hp => Heap.free_of_ne (ne_of_mem_of_not_mem hp hi)

theorem Heap.Stores.store (hs : h.Stores ptrs xs) (hnodup : ptrs.Nodup) (hi : i < ptrs.length) (a : α) :
    (h.store ptrs[i] a).Stores ptrs (xs.set i a) := by
  apply List.ext_getElem
  · simpa using hs.length_eq
  · intro j hj hj'
    rw [List.length_map] at hj
    rw [List.getElem_map, List.getElem_map]
    by_cases hji : j = i
    · subst j
      rw [Heap.store_self (hs.getElem hi (hs.length_eq ▸ hi)), List.getElem_set_self]
    · rw [Heap.store_of_ne (by rwa [Ne, hnodup.getElem_inj_iff]), hs.getElem hj (hs.length_eq ▸ hj),
        List.getElem_set_ne (Ne.symm hji)]

end Stores

def Heap.total (w : α → Nat) (h : Heap α) : Nat := ∑ i ∈ Finset.range h.next, (h.cells i).elim 0 w

section Total

variable {w : α → Nat} {h : Heap α} {i : Nat} {a b : α}

theorem Heap.total_alloc : (h.alloc a).total w = h.total w + w a := by
  have hold : ∀ j ∈ Finset.range h.next, ((h.alloc a).cells j).elim 0 w = (h.cells j).elim 0 w := by
    intro j hj
    rw [Heap.alloc_of_ne (Finset.mem_range.mp hj).ne]
  rw [Heap.total, Heap.alloc_next, Finset.sum_range_succ, Finset.sum_congr rfl hold, Heap.alloc_self]
  rfl

theorem Heap.total_update {h' : Heap α} (hnext : h'.next = h.next) (hother : ∀ j, j ≠ i → h'.cells j = h.cells j)
    (hi : h.cells i = some b) : h'.total w + w b = h.total w + (h'.cells i).elim 0 w := by
  have hmem : i ∈ Finset.range h.next := Finset.mem_range.mpr (h.lt_next hi)
  have hsum : ∀ j ∈ (Finset.range h.next).erase i, (h'.cells j).elim 0 w = (h.cells j).elim 0 w := by
    intro j hj
    rw [hother j (Finset.ne_of_mem_erase hj)]
  rw [Heap.total, Heap.total, hnext, ← Finset.add_sum_erase _ _ hmem, ← Finset.add_sum_erase _ _ hmem,
    Finset.sum_congr rfl hsum, hi]
  dsimp only [Option.elim_some]
  omega

theorem Heap.total_store (hi : h.cells i = some b) : (h.store i a).total w + w b = h.total w + w a := by
  have htotal := Heap.total_update (w := w) (h.store_next i a) (fun j hj => Heap.store_of_ne hj) hi
  rwa [Heap.store_self hi] at htotal

theorem Heap.total_free (hi : h.cells i = some b) : (h.free i).total w + w b = h.total w := by
  have htotal := Heap.total_update (w := w) (h.free_next i) (fun j hj => Heap.free_of_ne hj) hi
  rwa [Heap.free_self] at htotal

end Total

end Ak24.Objects
