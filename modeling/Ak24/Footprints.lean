import Ak24.Objects

namespace Ak24.Footprints

open Objects

variable {α : Type}

structure Beside (base : Nat → Option α) (own : List (Nat × α)) (h : Heap α) : Prop where
  nodup : (own.map Prod.fst).Nodup
  new : ∀ e ∈ own, base e.1 = none
  live : ∀ e ∈ own, h.cells e.1 = some e.2
  rest : ∀ i, i ∉ own.map Prod.fst → h.cells i = base i

variable {base : Nat → Option α} {own l r : List (Nat × α)} {h : Heap α} {i : Nat} {a b : α}

theorem Beside.start (h : Heap α) : Beside h.cells [] h :=
  ⟨List.nodup_nil, nofun, nofun, fun _ _ => rfl⟩

theorem Beside.cells_eq (hb : Beside base [] h) : h.cells = base :=
  funext fun i => hb.rest i List.not_mem_nil

theorem Beside.get (hb : Beside base own h) (hmem : (i, a) ∈ own) : h.cells i = some a := hb.live _ hmem

theorem Beside.not_mem (hb : Beside base own h) (hi : h.cells i = none) : i ∉ own.map Prod.fst := by
  intro hmem
  obtain ⟨e, he, rfl⟩ := List.mem_map.mp hmem
  rw [hb.live e he] at hi
  cases hi

theorem Beside.alloc (hb : Beside base own h) (a : α) : Beside base ((h.next, a) :: own) (h.alloc a) := by
  have hfresh := h.fresh h.next le_rfl
  have hnot := hb.not_mem hfresh
  refine ⟨List.nodup_cons.mpr ⟨hnot, hb.nodup⟩, ?_, ?_, ?_⟩
  · intro e he
    rcases List.mem_cons.mp he with rfl | he
    · exact (hb.rest _ hnot).symm.trans hfresh
    · exact hb.new e he
  · intro e he
    rcases List.mem_cons.mp he with rfl | he
    · exact Heap.alloc_self h a
    · exact Heap.alloc_old (hb.live e he)
  · intro j hj
    obtain ⟨hne, hj⟩ := not_or.mp (mt List.mem_cons.mpr hj)
    rw [Heap.alloc_of_ne hne, hb.rest j hj]

theorem mem_middle {x : Nat × α} {e : Nat × α} (he : e ∈ l ++ r) : e ∈ l ++ x :: r := by
  rw [List.mem_append] at he ⊢
  exact he.imp_right (List.mem_cons_of_mem _)

theorem Beside.nodup_middle (hb : Beside base (l ++ (i, a) :: r) h) :
    i ∉ (l ++ r).map Prod.fst ∧ ((l ++ r).map Prod.fst).Nodup := by
  have hnodup := hb.nodup
  rw [List.map_append, List.map_cons, List.nodup_middle, List.nodup_cons, ← List.map_append] at hnodup
  exact hnodup

theorem Beside.apart (hb : Beside base (l ++ (i, a) :: r) h) {e : Nat × α} (he : e ∈ l ++ r) : e.1 ≠ i := by
  intro heq
  exact hb.nodup_middle.1 (heq ▸ List.mem_map_of_mem he)

theorem Beside.free (hb : Beside base (l ++ (i, a) :: r) h) : Beside base (l ++ r) (h.free i) := by
  refine ⟨hb.nodup_middle.2, fun e he => hb.new e (mem_middle he), ?_, ?_⟩
  · intro e he
    rw [Heap.free_of_ne (hb.apart he), hb.live e (mem_middle he)]
  · intro j hj
    by_cases hji : j = i
    · subst j
      rw [Heap.free_self]
      exact (hb.new (i, a) (by simp)).symm
    · rw [Heap.free_of_ne hji]
      refine hb.rest j ?_
      rw [List.map_append, List.map_cons, List.mem_append, List.mem_cons]
      rw [List.map_append, List.mem_append] at hj
      tauto

theorem Beside.store (hb : Beside base (l ++ (i, a) :: r) h) (b : α) :
    Beside base (l ++ (i, b) :: r) (h.store i b) := by
  have hkeys : (l ++ (i, b) :: r).map Prod.fst = (l ++ (i, a) :: r).map Prod.fst := by simp
  have hcases : ∀ e ∈ l ++ (i, b) :: r, e = (i, b) ∨ e ∈ l ++ r := by
    intro e he
    rw [List.mem_append, List.mem_cons] at he
    rw [List.mem_append]
    tauto
  refine ⟨hkeys ▸ hb.nodup, ?_, ?_, ?_⟩
  · intro e he
    rcases hcases e he with rfl | he
    · exact hb.new (i, a) (by simp)
    · exact hb.new e (mem_middle he)
  · intro e he
    rcases hcases e he with rfl | he
    · exact Heap.store_self (hb.live (i, a) (by simp))
    · rw [Heap.store_of_ne (hb.apart he), hb.live e (mem_middle he)]
  · intro j hj
    rw [hkeys] at hj
    have hji : j ≠ i := by
      rintro rfl
      exact hj (by simp)
    rw [Heap.store_of_ne hji, hb.rest j hj]

end Ak24.Footprints
