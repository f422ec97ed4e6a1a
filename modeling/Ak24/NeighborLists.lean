import Mathlib

namespace Ak24.NeighborLists

variable {α : Type} [DecidableEq α]

def addBond (lists : α → List α) (a b : α) : α → List α :=
  let lists := Function.update lists a (b :: lists a)
  Function.update lists b (a :: lists b)

def removeBond (lists : α → List α) (a b : α) : α → List α :=
  let lists := Function.update lists a ((lists a).erase b)
  Function.update lists b ((lists b).erase a)

def Mutual (lists : α → List α) : Prop := ∀ a b, (lists a).count b = (lists b).count a

section Count

variable (lists : α → List α) (x y a b : α)

theorem count_update_cons :
    (Function.update lists x (y :: lists x) a).count b = (lists a).count b + if x = a ∧ y = b then 1 else 0 := by
  by_cases hx : a = x
  · subst a
    simp [List.count_cons]
  · simp [hx, Ne.symm hx]

theorem count_update_erase :
    (Function.update lists x ((lists x).erase y) a).count b = (lists a).count b - if x = a ∧ y = b then 1 else 0 := by
  by_cases hx : a = x
  · subst a
    simp [List.count_erase]
  · simp [hx, Ne.symm hx]

theorem count_addBond :
    (addBond lists x y a).count b =
      (lists a).count b + (if x = a ∧ y = b then 1 else 0) + if y = a ∧ x = b then 1 else 0 := by
  rw [addBond, count_update_cons, count_update_cons]

theorem count_removeBond :
    (removeBond lists x y a).count b =
      (lists a).count b - (if x = a ∧ y = b then 1 else 0) - if y = a ∧ x = b then 1 else 0 := by
  rw [removeBond, count_update_erase, count_update_erase]

variable {lists}

theorem Mutual.addBond (h : Mutual lists) : Mutual (addBond lists x y) := by
  intro a b
  simp only [count_addBond, h a b, and_comm]
  exact Nat.add_right_comm _ _ _

theorem Mutual.removeBond (h : Mutual lists) : Mutual (removeBond lists x y) := by
  intro a b
  simp only [count_removeBond, h a b, and_comm]
  exact Nat.sub_right_comm _ _ _

theorem removeBond_bonded (h : Mutual lists) {a b : α} (hne : a ≠ b) (hb : 0 < (lists a).count b) :
    (NeighborLists.removeBond lists a b a).count b + 1 = (lists a).count b ∧
      (NeighborLists.removeBond lists a b b).count a + 1 = (lists b).count a := by
  have hsame := h a b
  rw [count_removeBond, count_removeBond]
  simp only [hne, hne.symm, and_self, if_true, if_false]
  omega

theorem removeBond_other {a b c d : α} (hab : ¬(c = a ∧ d = b)) (hba : ¬(c = b ∧ d = a)) :
    (NeighborLists.removeBond lists a b c).count d = (lists c).count d := by
  rw [count_removeBond, if_neg fun hc => hab ⟨hc.1.symm, hc.2.symm⟩, if_neg fun hc => hba ⟨hc.1.symm, hc.2.symm⟩]
  rfl

end Count

end Ak24.NeighborLists
