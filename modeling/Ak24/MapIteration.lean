import Ak24.MapRefinement

namespace Ak24.MapIteration

open MapModel MapRefinement

variable {K V : Type} {ops : KeyOps K} {m : MapBase K V}

def remaining (m : MapBase K V) (iter : MapIter) : List (MapNode K V) :=
  match iter.node with
  | none => (m.buckets.drop (iter.bucketidx + 1).toNat).flatten
  | some j =>
    (m.buckets[iter.bucketidx.toNat]?.getD []).drop (j + 1) ++ (m.buckets.drop (iter.bucketidx + 1).toNat).flatten

structure Standing (m : MapBase K V) (iter : MapIter) : Prop where
  next : (iter.bucketidx + 1).toNat ≤ m.nbuckets.toNat
  node : ∀ j, iter.node = some j → (iter.bucketidx + 1).toNat = iter.bucketidx.toNat + 1

theorem standing_mapIter : Standing m mapIter := ⟨by simp [mapIter], by simp [mapIter]⟩

theorem remaining_mapIter : remaining m mapIter = contents m := by
  simp [remaining, mapIter, contents]

def Advances (m : MapBase K V) (nodes : List (MapNode K V)) (r : Option (Option K × MapIter)) : Prop :=
  (nodes = [] ∧ r = some (none, ⟨m.nbuckets, none⟩)) ∨
    ∃ node iter, r = some (some node.key, iter) ∧ nodes = node :: remaining m iter ∧ Standing m iter

theorem nextBucket_advances (hlength : m.buckets.length = m.nbuckets.toNat) (fuel : Nat) (idx : Unsigned)
    (hidx : (idx + 1).toNat ≤ m.nbuckets.toNat) (hfuel : m.nbuckets.toNat - (idx + 1).toNat < fuel) :
    Advances m (m.buckets.drop (idx + 1).toNat).flatten (nextBucket m fuel idx) := by
  induction fuel generalizing idx with
  | zero => omega
  | succ fuel ih =>
      rw [nextBucket]
      by_cases hend : m.nbuckets ≤ idx + 1
      · rw [if_pos hend]
        have hdrop : m.buckets.drop (idx + 1).toNat = [] := by
          apply List.drop_of_length_le
          rw [hlength]
          exact BitVec.le_def.mp hend
        have hlast : idx + 1 = m.nbuckets := BitVec.eq_of_toNat_eq (le_antisymm hidx (BitVec.le_def.mp hend))
        exact .inl ⟨by rw [hdrop]; rfl, by rw [hlast]⟩
      · rw [if_neg hend]
        have hlt : (idx + 1).toNat < m.buckets.length := by
          rw [hlength]
          exact Nat.lt_of_not_le fun hle => hend (BitVec.le_def.mpr hle)
        -- the counter does not wrap below the number of buckets
        have hnext : (idx + 1 + 1).toNat = (idx + 1).toNat + 1 := by
          have hsmall := m.nbuckets.isLt
          have hone : (1 : Unsigned).toNat = 1 := rfl
          rw [BitVec.toNat_add, hone]
          exact Nat.mod_eq_of_lt (by omega)
        rw [List.drop_eq_getElem_cons hlt, List.flatten_cons, List.getElem?_eq_getElem hlt]
        cases hchain : m.buckets[(idx + 1).toNat] with
        | nil =>
            rw [List.nil_append, ← hnext]
            exact ih (idx + 1) (by omega) (by omega)
        | cons node chain =>
            refine .inr ⟨node, _, rfl, ?_, ⟨by simp only; omega, fun _ _ => hnext⟩⟩
            simp only [remaining, List.getElem?_eq_getElem hlt, hchain, hnext]
            rfl

/-- Every call of `map_next_` takes the first of the nodes that remain. -/
theorem mapNext_advances (hlength : m.buckets.length = m.nbuckets.toNat) {iter : MapIter} (h : Standing m iter) :
    Advances m (remaining m iter) (mapNext m iter) := by
  obtain ⟨idx, node⟩ := iter
  have hbucket := nextBucket_advances hlength (m.nbuckets.toNat + 1) idx h.next (by omega)
  cases node with
  | none => exact hbucket
  | some j =>
      have hnext := h.node j rfl
      have hle := h.next
      simp only at hnext hle
      have hlt : idx.toNat < m.buckets.length := by omega
      simp only [mapNext, remaining, List.getElem?_eq_getElem hlt, bind, Option.bind_some, Option.getD_some]
      cases hnode : m.buckets[idx.toNat][j + 1]? with
      | none =>
          rw [List.drop_of_length_le (List.getElem?_eq_none_iff.mp hnode), List.nil_append]
          exact hbucket
      | some node =>
          obtain ⟨hj, rfl⟩ := List.getElem?_eq_some_iff.mp hnode
          refine .inr ⟨_, _, rfl, ?_, h.next, fun _ _ => hnext⟩
          rw [List.drop_eq_getElem_cons hj, List.cons_append]
          simp [remaining, List.getElem?_eq_getElem hlt]

end Ak24.MapIteration
