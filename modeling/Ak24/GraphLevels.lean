import Mathlib

namespace Ak24.GraphLevels

open SimpleGraph

variable {V : Type} {G : SimpleGraph V} {a x y : V} {D k : Nat}

theorem edist_le_succ (a : V) (h : G.Adj x y) : G.edist a y ≤ G.edist a x + 1 := by
  rw [← edist_eq_one_iff_adj.mpr h]
  exact SimpleGraph.edist_triangle

theorem exists_nearer (h : G.edist a y = (k + 1 : Nat)) : ∃ x, G.Adj x y ∧ G.edist a x = k := by
  obtain ⟨p, hp⟩ := exists_walk_of_edist_eq_coe h
  have hnil : ¬p.Nil := Walk.not_nil_iff_lt_length.mpr (by omega)
  refine ⟨p.penultimate, p.adj_penultimate hnil, le_antisymm ?_ ?_⟩
  · have hle := edist_le p.dropLast
    rwa [Walk.length_dropLast, hp, Nat.add_sub_cancel] at hle
  · have hle := edist_le_succ a (p.adj_penultimate hnil)
    rw [h, Nat.cast_add, Nat.cast_one] at hle
    exact (ENat.add_le_add_iff_right ENat.one_ne_top).mp hle

theorem edist_of_farther {n : V} (h : G.Adj x n) (hx : G.edist a x = k) (hn : ¬G.edist a n ≤ k) :
    G.edist a n = (k + 1 : Nat) := by
  refine le_antisymm ?_ ?_
  · exact (edist_le_succ a h).trans_eq (by rw [hx]; rfl)
  · exact Order.add_one_le_of_lt (not_le.mp hn)

/-- A set that goes on from its vertices nearer than `k` to the next level has all
the vertices up to the level `k`. -/
theorem mem_of_level {s : Set V} (ha : a ∈ s)
    (hs : ∀ x ∈ s, ∀ j < k, G.edist a x = j → ∀ y, G.Adj x y → G.edist a y = (j + 1 : Nat) → y ∈ s) {j : Nat}
    (hj : j ≤ k) (hy : G.edist a y = j) : y ∈ s := by
  induction j generalizing y with
  | zero =>
      rw [Nat.cast_zero, edist_eq_zero_iff] at hy
      rwa [← hy]
  | succ j ih =>
      obtain ⟨x, hadj, hx⟩ := exists_nearer hy
      exact hs x (ih (Nat.le_of_succ_le hj) hx) j hj hx y hadj hy

def near (G : SimpleGraph V) (a : V) (D : Nat) : SimpleGraph V where
  Adj x y := G.Adj x y ∧ G.edist a x < D ∧ G.edist a y < D
  symm := ⟨fun _ _ h => ⟨h.1.symm, h.2.2, h.2.1⟩⟩
  loopless := ⟨fun _ h => G.loopless.irrefl _ h.1⟩

def Thin (G : SimpleGraph V) (a : V) (D : Nat) : Prop :=
  ∀ k : Nat, 0 < k → k < D → ∀ y, G.edist a y = k → ∃ p, ∀ x, G.Adj y x → G.edist a x ≤ k → x = p

theorem exists_level (h : G.edist a x ≤ k) : ∃ j : Nat, j ≤ k ∧ G.edist a x = j := by
  obtain ⟨j, hj⟩ := ENat.ne_top_iff_exists.mp (ne_top_of_le_ne_top (ENat.natCast_ne_top k) h)
  rw [← hj, Nat.cast_le] at h
  exact ⟨j, h, hj.symm⟩

theorem reachable_around {n : V} (hk : k < D) (hy : G.edist a y = k) {z : V} (hzy : z ≠ y) (hz : G.edist a z ≤ k) :
    ((near G a D).deleteEdges {s(y, n)}).Reachable a z := by
  obtain ⟨j, hj, hlevel⟩ := exists_level hz
  induction j generalizing z with
  | zero =>
      rw [Nat.cast_zero, edist_eq_zero_iff] at hlevel
      subst z
      exact Reachable.refl a
  | succ j ih =>
      obtain ⟨x, hadj, hx⟩ := exists_nearer hlevel
      have hxy : x ≠ y := by
        rintro rfl
        rw [hx, Nat.cast_inj] at hy
        omega
      have hjk : j ≤ k := Nat.le_of_succ_le hj
      refine (ih hxy (by rw [hx]; exact_mod_cast hjk) hjk hx).trans (Adj.reachable ?_)
      rw [deleteEdges_adj]
      refine ⟨⟨hadj, ?_, ?_⟩, ?_⟩
      · rw [hx]
        exact_mod_cast hjk.trans_lt hk
      · rw [hlevel]
        exact_mod_cast hj.trans_lt hk
      · simp [hxy, hzy]

theorem thin_of_isAcyclic (h : (near G a D).IsAcyclic) : Thin G a D := by
  intro k hpos hk y hy
  by_contra hmany
  push Not at hmany
  obtain ⟨n, hadj, hn, -⟩ := hmany a
  obtain ⟨p, hadj', hp, hpn⟩ := hmany n
  have hnear : ∀ {x}, G.Adj y x → G.edist a x ≤ k → (near G a D).Adj y x := by
    intro x hx hle
    refine ⟨hx, ?_, hle.trans_lt ?_⟩
    · rw [hy]
      exact_mod_cast hk
    · exact_mod_cast hk
  -- the edge to `n` is on the cycle by way of `p` and `a`
  have hbridge := isAcyclic_iff_forall_adj_isBridge.mp h (hnear hadj hn)
  refine (isBridge_iff.mp hbridge) ?_
  have hfirst : ((near G a D).deleteEdges {s(y, n)}).Adj y p := by
    rw [deleteEdges_adj]
    refine ⟨hnear hadj' hp, ?_⟩
    simp [hpn, hadj.ne]
  exact hfirst.reachable.trans
    ((reachable_around hk hy hadj'.ne' hp).symm.trans (reachable_around hk hy hadj.ne' hn))

theorem isAcyclic_of_thin (h : Thin G a D) : (near G a D).IsAcyclic := by
  classical
  intro v c hc
  -- the farthest vertex of a cycle has two neighbours that are not farther
  obtain ⟨y, hy, hmax⟩ := c.support.toFinset.exists_max_image (G.edist a) ⟨v, by simp⟩
  rw [List.mem_toFinset] at hy
  have hcycle : (c.rotate y hy).IsCycle := Walk.IsCycle.rotate hy hc
  have hnil := hcycle.not_nil
  have hfar : ∀ {x}, x ∈ (c.rotate y hy).support → G.edist a x ≤ G.edist a y := by
    intro x hx
    exact hmax x (List.mem_toFinset.mpr ((c.mem_support_rotate_iff y hy).mp hx))
  have hsnd := (c.rotate y hy).adj_snd hnil
  have hpenultimate := (c.rotate y hy).adj_penultimate hnil
  obtain ⟨k, -, hk⟩ := exists_level hsnd.2.1.le
  have hkD : k < D := by
    have hlt := hsnd.2.1
    rw [hk] at hlt
    exact_mod_cast hlt
  have hle₁ : G.edist a (c.rotate y hy).snd ≤ G.edist a y := hfar (Walk.getVert_mem_support _ _)
  have hle₂ : G.edist a (c.rotate y hy).penultimate ≤ G.edist a y := hfar (Walk.getVert_mem_support _ _)
  rw [hk] at hle₁ hle₂
  cases k with
  | zero =>
      -- only `a` is nowhere from `a`
      rw [Nat.cast_zero, nonpos_iff_eq_zero, edist_eq_zero_iff] at hle₁
      rw [Nat.cast_zero, edist_eq_zero_iff] at hk
      exact hsnd.1.ne (hk.symm.trans hle₁)
  | succ k =>
      obtain ⟨p, hp⟩ := h (k + 1) (Nat.succ_pos k) hkD y hk
      have hsame := (hp _ hsnd.1 hle₁).trans (hp _ hpenultimate.1.symm hle₂).symm
      exact hcycle.snd_ne_penultimate hsame

theorem near_isAcyclic_iff : (near G a D).IsAcyclic ↔ Thin G a D := ⟨thin_of_isAcyclic, isAcyclic_of_thin⟩

end Ak24.GraphLevels
