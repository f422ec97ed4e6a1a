import Mathlib

namespace Ak24.Buckets

variable {α : Type} {buckets : List (List α)} {i : Nat} {chain : List α}

theorem split_bucket (h : buckets[i]? = some chain) :
    ∃ pre post, buckets = pre ++ chain :: post ∧ pre.length = i ∧
      ∀ chain', buckets.set i chain' = pre ++ chain' :: post := by
  obtain ⟨hi, rfl⟩ := List.getElem?_eq_some_iff.mp h
  refine ⟨buckets.take i, buckets.drop (i + 1), ?_, ?_, fun chain' => ?_⟩
  · rw [List.getElem_cons_drop, List.take_append_drop]
  · rw [List.length_take]
    omega
  · rw [List.set_eq_take_append_cons_drop, if_pos hi]

theorem getElem?_set_cases {n : Nat} {c : List α} (h : (buckets.set i chain)[n]? = some c) :
    n = i ∧ c = chain ∨ buckets[n]? = some c := by
  by_cases hn : i = n
  · subst hn
    rw [List.getElem?_set_self'] at h
    cases hb : buckets[i]? with
    | none => simp [hb] at h
    | some c' =>
        left
        simpa [hb, eq_comm] using h
  · right
    rwa [List.getElem?_set_ne hn] at h

theorem push_perm (h : buckets[i]? = some chain) (a : α) :
    (buckets.set i (a :: chain)).flatten.Perm (a :: buckets.flatten) := by
  obtain ⟨pre, post, hb, -, hset⟩ := split_bucket h
  rw [hset]
  conv_rhs => rw [hb]
  simp only [List.flatten_append, List.flatten_cons, List.cons_append]
  exact List.perm_middle

theorem mem_home (home : α → Nat) (hhome : ∀ i chain, buckets[i]? = some chain → ∀ a ∈ chain, i = home a) {a : α}
    (ha : a ∈ buckets.flatten) : ∃ chain, buckets[home a]? = some chain ∧ a ∈ chain := by
  obtain ⟨chain, hchain, ha⟩ := List.mem_flatten.mp ha
  obtain ⟨i, hi⟩ := List.mem_iff_getElem?.mp hchain
  rw [← hhome i chain hi a ha]
  exact ⟨chain, hi, ha⟩

end Ak24.Buckets
