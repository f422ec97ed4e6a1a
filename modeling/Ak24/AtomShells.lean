import Ak24.AtomSymmetry
import Ak24.DepthSearch

namespace Ak24.AtomShells

open AtomModel AtomSymmetry DepthSearch GraphLevels NeighborLists Objects Transition

variable {α : Type} [DecidableEq α]

def listOf (s : Atoms α) (atom : α) : List α := (walkList s.nodes s.nodes.next (s.neighbors atom)).getD []

def bondGraph (s : Atoms α) : SimpleGraph α := SimpleGraph.fromRel fun x y => y ∈ listOf s x

/-- `ak_atom_neighbors` returns the atoms at the distance, each of them once. -/
def Exact (s : Atoms α) (atom : α) (distance : Nat) : Prop :=
  ∃ cluster, akAtomNeighbors s (some atom) distance .all = some (some cluster) ∧ cluster.atoms.Nodup ∧
    ∀ x, x ∈ cluster.atoms ↔ (bondGraph s).edist atom x = distance

section Memory

variable {s : Atoms α} {chains : α → List Nat} {lists : α → List α} {trace : List (Call α × Int)}

omit [DecidableEq α] in
theorem walkList_of_holds (h : Holds s chains lists) (x : α) :
    walkList s.nodes s.nodes.next (s.neighbors x) = some (lists x) := by
  apply walkList_eq _ (h.isList x)
  have hlength := congrArg List.length (h.atoms x)
  rw [List.length_map, List.length_map] at hlength
  rw [← hlength]
  exact length_le_next (h.linked x) (h.atoms x)

omit [DecidableEq α] in
theorem listOf_eq (h : Holds s chains lists) (x : α) : listOf s x = lists x := by
  rw [listOf, walkList_of_holds h]
  rfl

theorem bondGraph_adj (h : Holds s chains lists) (hsymm : Mutual lists) (x y : α) :
    (bondGraph s).Adj x y ↔ x ≠ y ∧ y ∈ lists x := by
  have hmem : x ∈ lists y ↔ y ∈ lists x := by
    rw [← List.count_pos_iff, ← List.count_pos_iff, hsymm]
  rw [bondGraph, SimpleGraph.fromRel_adj, listOf_eq h, listOf_eq h, hmem, or_self]

omit [DecidableEq α] in
theorem add_atoms (st : Search α) (atom : α) : (st.add atom .all).cluster.atoms = st.cluster.atoms ++ [atom] := by
  rw [Search.add, akAtomClusterAdd]
  split
  · rfl
  · rfl

omit [DecidableEq α] in
theorem visit_visited (st : Search α) (capacity : Nat) (atom : α) :
    (st.visit capacity atom).visited = record capacity st.visited atom := by
  rw [Search.visit, record]
  split
  · rfl
  · rfl

omit [DecidableEq α] in
theorem visit_cluster (st : Search α) (capacity : Nat) (atom : α) : (st.visit capacity atom).cluster = st.cluster := by
  rw [Search.visit]
  split
  · rfl
  · rfl

theorem foldlM_eq {σ τ ε : Type} (step : σ → ε → Option σ) (g : τ → ε → τ) (f : σ → τ)
    (hstep : ∀ st n, ∃ st', step st n = some st' ∧ f st' = g (f st) n) (l : List ε) (st : σ) :
    ∃ st', l.foldlM step st = some st' ∧ f st' = l.foldl g (f st) := by
  induction l generalizing st with
  | nil => exact ⟨st, rfl, rfl⟩
  | cons n l ih =>
      obtain ⟨st₁, hst₁, hf₁⟩ := hstep st n
      obtain ⟨st₂, hst₂, hf₂⟩ := ih st₁
      refine ⟨st₂, by simpa [List.foldlM_cons, hst₁] using hst₂, ?_⟩
      rw [hf₂, hf₁, List.foldl_cons]

/-- The recursion ends, and goes through the lists as the search does. -/
theorem akAtomNeighborsRecursive_eq (hlists : ∀ x, walkList s.nodes s.nodes.next (s.neighbors x) = some (lists x))
    (capacity left : Nat) (atom : α) (st : Search α) :
    ∃ st', akAtomNeighborsRecursive s .all capacity left atom st = some st' ∧
      (st'.visited, st'.cluster.atoms) = search lists capacity left atom (st.visited, st.cluster.atoms) := by
  induction left generalizing atom st with
  | zero =>
      by_cases hmem : atom ∈ st.visited
      · refine ⟨st, by rw [akAtomNeighborsRecursive, if_pos hmem], ?_⟩
        rw [search_of_mem hmem]
      · refine ⟨(st.visit capacity atom).add atom .all, by rw [akAtomNeighborsRecursive, if_neg hmem], ?_⟩
        rw [search_zero hmem, add_atoms, visit_cluster, Search.add, visit_visited]
  | succ left ih =>
      by_cases hmem : atom ∈ st.visited
      · refine ⟨st, by rw [akAtomNeighborsRecursive, if_pos hmem], ?_⟩
        rw [search_of_mem hmem]
      · obtain ⟨st', hloop, hst'⟩ := foldlM_eq (fun st n => akAtomNeighborsRecursive s .all capacity left n st)
          (fun st n => search lists capacity left n st) (fun st => (st.visited, st.cluster.atoms)) (fun st n => ih n st)
          (lists atom) (st.visit capacity atom)
        refine ⟨st', ?_, ?_⟩
        · rw [akAtomNeighborsRecursive, if_neg hmem, hlists]
          exact hloop
        · rw [search_succ hmem, hst', visit_visited, visit_cluster]

theorem akAtomNeighbors_eq (h : Holds s chains lists) (atom : α) (distance : Nat) :
    ∃ cluster, akAtomNeighbors s (some atom) distance .all = some (some cluster) ∧
      cluster.atoms = if distance = 0 then [atom] else (search lists 1024 distance atom ([], [])).2 := by
  by_cases hzero : distance = 0
  · refine ⟨⟨[atom], 16⟩, ?_, ?_⟩
    · simp [akAtomNeighbors, akAtomClusterNew, akAtomClusterAdd, Grants.all, hzero]
    · simp [hzero]
  · obtain ⟨st', hrun, hst'⟩ := akAtomNeighborsRecursive_eq (walkList_of_holds h) 1024 distance atom ⟨[], [], 16⟩
    refine ⟨st'.cluster, ?_, ?_⟩
    · rw [akAtomNeighbors, akAtomClusterNew]
      simp only [Grants.all, hzero] at hrun ⊢
      simp [hrun]
    · rw [if_neg hzero, ← hst']

theorem exact_iff (h : Holds s chains lists) (atom : α) (distance : Nat) :
    Exact s atom (distance + 1) ↔ (search lists 1024 (distance + 1) atom ([], [])).2.Nodup ∧
      ∀ x, x ∈ (search lists 1024 (distance + 1) atom ([], [])).2 ↔ (bondGraph s).edist atom x = (distance + 1 : Nat) := by
  obtain ⟨cluster, hcluster, hatoms⟩ := akAtomNeighbors_eq h atom (distance + 1)
  rw [if_neg (Nat.succ_ne_zero distance)] at hatoms
  rw [← hatoms]
  constructor
  · rintro ⟨cluster', hcluster', hexact⟩
    rw [hcluster] at hcluster'
    cases hcluster'
    exact hexact
  · exact fun hexact => ⟨cluster, hcluster, hexact⟩

end Memory

/-- Up to a distance `D` the queries at an atom are exact where the bonds between the
atoms nearer than `D` form no cycle and the atoms up to there fit in the table; with
a cycle one of the queries is not exact. A single query is exact only if no atom one
step nearer has two neighbours that are not farther than itself. -/
theorem akAtomNeighbors_exact_iff (trace : List (Call α × Int)) (s : Atoms α) (hrun : Run Step (Atoms.start α) trace s)
    (atom : α) (D : Nat) :
    ({x | (bondGraph s).edist atom x ≤ D}.encard ≤ 1024 →
      ((∀ distance ≤ D, Exact s atom distance) ↔ (near (bondGraph s) atom D).IsAcyclic)) ∧
    ((∀ distance ≤ D, Exact s atom distance) → (near (bondGraph s) atom D).IsAcyclic) ∧
    (∀ k, Exact s atom (k + 1) → ∀ y, (bondGraph s).edist atom y = k →
      ∃ p, ∀ x, (bondGraph s).Adj y x → (bondGraph s).edist atom x ≤ k → x = p) := by
  obtain ⟨chains, lists, h, hsymm⟩ := holds_of_run hrun
  have hadj := bondGraph_adj h hsymm
  have hsingle : ∀ k, Exact s atom (k + 1) → ∀ y, (bondGraph s).edist atom y = k →
      ∃ p, ∀ x, (bondGraph s).Adj y x → (bondGraph s).edist atom x ≤ k → x = p := by
    intro k hexact y hy
    have hfound := ((exact_iff h atom k).mp hexact).2
    exact thin_of_search hadj (fun x hx => (hfound x).mp hx) hy
  have hnecessary : (∀ distance ≤ D, Exact s atom distance) → (near (bondGraph s) atom D).IsAcyclic := by
    intro hexact
    rw [near_isAcyclic_iff]
    intro k _ hk y hy
    exact hsingle k (hexact (k + 1) hk) y hy
  refine ⟨fun hcapacity => ⟨hnecessary, fun hacyclic distance hdistance => ?_⟩, hnecessary, hsingle⟩
  cases distance with
  | zero =>
      obtain ⟨cluster, hcluster, hatoms⟩ := akAtomNeighbors_eq h atom 0
      rw [if_pos rfl] at hatoms
      refine ⟨cluster, hcluster, by simp [hatoms], fun x => ?_⟩
      rw [hatoms, List.mem_singleton, Nat.cast_zero, SimpleGraph.edist_eq_zero_iff, eq_comm]
  | succ d =>
      have hthin := near_isAcyclic_iff.mp hacyclic
      refine (exact_iff h atom d).mpr (search_exact hadj (fun k hpos hk => hthin k hpos (hk.trans_le hdistance)) ?_)
      refine (Set.encard_le_encard fun x hx => ?_).trans hcapacity
      have hle : ((d + 1 : Nat) : ℕ∞) ≤ D := by exact_mod_cast hdistance
      exact Set.mem_ofPred.mpr ((Set.mem_ofPred.mp hx).trans hle)

/-- Two atoms with one bond. -/
theorem akAtomNeighbors_exact_pair : ∃ s : Atoms Bool,
    Run Step (Atoms.start Bool) [(.bond (some false) (some true) true true, 0)] s ∧
      ∀ distance ≤ 2, Exact s false distance := by
  have r₁ : Run Step (Atoms.start Bool) _ _ := Run.start.next ⟨.bond (some false) (some true) true true, _, rfl, rfl⟩
  refine ⟨_, r₁, ((akAtomNeighbors_exact_iff _ _ r₁ false 2).1 ?_).mpr ?_⟩
  · refine (Set.encard_le_encard (Set.subset_univ _)).trans ?_
    rw [Set.encard_univ, ENat.card_eq_coe_fintype_card, Fintype.card_bool]
    exact_mod_cast (by decide : 2 ≤ 1024)
  · exact SimpleGraph.IsAcyclic.of_card_le_two (by simp)

/-- Three atoms that are all bonded with each other: a query for those two bonds away
returns one that is one bond away. -/
theorem akAtomNeighbors_triangle : ∃ trace, ∃ s : Atoms (Fin 3), Run Step (Atoms.start (Fin 3)) trace s ∧
    trace = [(.bond (some 0) (some 1) true true, 0), (.bond (some 0) (some 2) true true, 0),
      (.bond (some 1) (some 2) true true, 0)] ∧
    akAtomNeighbors s (some 0) 2 .all = some (some ⟨[1], 16⟩) ∧ (bondGraph s).edist 0 1 = 1 := by
  have r₁ : Run Step (Atoms.start (Fin 3)) _ _ := Run.start.next ⟨.bond (some 0) (some 1) true true, _, rfl, rfl⟩
  have r₂ := r₁.next ⟨.bond (some 0) (some 2) true true, _, rfl, rfl⟩
  have r₃ := r₂.next ⟨.bond (some 1) (some 2) true true, _, rfl, rfl⟩
  refine ⟨_, _, r₃, rfl, by decide, ?_⟩
  rw [SimpleGraph.edist_eq_one_iff_adj]
  exact ⟨by decide, .inl (by decide)⟩

end Ak24.AtomShells
