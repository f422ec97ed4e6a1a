import Ak24.Objects

namespace Ak24.Holdings

open Objects

variable {α β : Type} {f : α → Multiset β} {h h' : Heap α} {i : Nat} {a b : α}

def part (f : α → Multiset β) (cell : Option α) : Multiset β := (cell.map f).getD 0

def holdings (f : α → Multiset β) (h : Heap α) : Multiset β := ∑ i ∈ Finset.range h.next, part f (h.cells i)

@[simp]
theorem part_none (f : α → Multiset β) : part f none = 0 := rfl

@[simp]
theorem part_some (f : α → Multiset β) (a : α) : part f (some a) = f a := rfl

@[simp]
theorem holdings_empty (f : α → Multiset β) : holdings f (Heap.empty α) = 0 := rfl

theorem holdings_alloc (f : α → Multiset β) (h : Heap α) (a : α) : holdings f (h.alloc a) = holdings f h + f a := by
  have hold : ∀ i ∈ Finset.range h.next, part f ((h.alloc a).cells i) = part f (h.cells i) := by
    intro i hi
    rw [Heap.alloc_of_ne (Finset.mem_range.mp hi).ne]
  rw [holdings, Heap.alloc_next, Finset.sum_range_succ, Finset.sum_congr rfl hold, Heap.alloc_self, part_some]
  rfl

theorem holdings_change (hnext : h'.next = h.next) (hi : i < h.next) (hother : ∀ j ≠ i, h'.cells j = h.cells j) :
    holdings f h' + part f (h.cells i) = holdings f h + part f (h'.cells i) := by
  have hmem := Finset.mem_range.mpr hi
  have hrest : ∑ j ∈ (Finset.range h.next).erase i, part f (h'.cells j) =
      ∑ j ∈ (Finset.range h.next).erase i, part f (h.cells j) := by
    refine Finset.sum_congr rfl fun j hj => ?_
    rw [hother j (Finset.ne_of_mem_erase hj)]
  rw [holdings, holdings, hnext, ← Finset.add_sum_erase _ _ hmem, ← Finset.add_sum_erase _ _ hmem, hrest]
  abel

theorem holdings_store (hi : h.cells i = some a) : holdings f (h.store i b) + f a = holdings f h + f b := by
  have hchange := holdings_change (f := f) (h.store_next i b) (h.lt_next hi) fun _ hj => Heap.store_of_ne hj
  rw [hi, Heap.store_self hi] at hchange
  exact hchange

theorem holdings_free (hi : h.cells i = some a) : holdings f (h.free i) + f a = holdings f h := by
  have hchange := holdings_change (f := f) (h.free_next i) (h.lt_next hi) fun _ hj => Heap.free_of_ne hj
  rw [hi, Heap.free_self, part_none, add_zero] at hchange
  exact hchange

theorem le_holdings (hi : h.cells i = some a) : f a ≤ holdings f h := by
  rw [← holdings_free hi]
  exact Multiset.le_add_left _ _

theorem holdings_eq_zero (hnone : ∀ i, h.cells i = none) : holdings f h = 0 := by
  refine Finset.sum_eq_zero fun i _ => ?_
  rw [hnone, part_none]

end Ak24.Holdings
