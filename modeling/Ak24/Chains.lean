import Mathlib

namespace Ak24.Chains

variable {α : Type} {next next' : α → Option α} {p : Option α} {a b : α} {as bs : List α}

/-- Following `next` from `p` visits exactly the listed addresses and stops. -/
def Linked (next : α → Option α) : Option α → List α → Prop
  | p, [] => p = none
  | p, a :: as => p = some a ∧ Linked next (next a) as

theorem Linked.unique (h : Linked next p as) (h' : Linked next p bs) : as = bs := by
  induction as generalizing p bs with
  | nil =>
      cases bs with
      | nil => rfl
      | cons b bs =>
          rw [Linked] at h
          rw [h] at h'
          cases h'.1
  | cons a as ih =>
      cases bs with
      | nil =>
          rw [Linked] at h'
          rw [h'] at h
          cases h.1
      | cons b bs =>
          obtain rfl : a = b := Option.some.inj (h.1.symm.trans h'.1)
          rw [ih h.2 h'.2]

theorem Linked.suffix (h : Linked next p (as ++ a :: bs)) : Linked next (some a) (a :: bs) := by
  induction as generalizing p with
  | nil => exact ⟨rfl, h.2⟩
  | cons c as ih => exact ih h.2

theorem Linked.nodup (h : Linked next p as) : as.Nodup := by
  induction as generalizing p with
  | nil => exact List.nodup_nil
  | cons a as ih =>
      refine List.nodup_cons.mpr ⟨fun ha => ?_, ih h.2⟩
      obtain ⟨l, r, rfl⟩ := List.append_of_mem ha
      have hr : Linked next (some a) (a :: r) := Linked.suffix (show Linked next p ((a :: l) ++ a :: r) from h)
      have hall : Linked next (some a) (a :: (l ++ a :: r)) := ⟨rfl, h.2⟩
      have hlen := congrArg List.length (hr.unique hall)
      simp only [List.length_cons, List.length_append] at hlen
      omega

theorem Linked.congr (h : Linked next p as) (hn : ∀ a ∈ as, next' a = next a) : Linked next' p as := by
  induction as generalizing p with
  | nil => exact h
  | cons a as ih =>
      refine ⟨h.1, ih ?_ fun c hc => hn c (by simp [hc])⟩
      rw [hn a (by simp)]
      exact h.2

theorem Linked.concat (h : Linked next p (as ++ a :: bs)) (ha : next' a = some b) (hb : next' b = none)
    (hn : ∀ c ∈ as, next' c = next c) : Linked next' p (as ++ [a] ++ [b]) := by
  induction as generalizing p with
  | nil => exact ⟨h.1, ha, hb⟩
  | cons c as ih =>
      refine ⟨h.1, ih ?_ fun d hd => hn d (by simp [hd])⟩
      rw [hn c (by simp)]
      exact h.2

theorem Linked.skip (h : Linked next p (as ++ a :: b :: bs)) (ha : next' a = next b)
    (hn : ∀ c ∈ as ++ bs, next' c = next c) : Linked next' p (as ++ a :: bs) := by
  induction as generalizing p with
  | nil =>
      refine ⟨h.1, ?_⟩
      rw [ha]
      exact Linked.congr h.2.2 fun c hc => hn c (by simpa using hc)
  | cons c as ih =>
      refine ⟨h.1, ih ?_ fun d hd => hn d (by simp only [List.cons_append, List.mem_cons]; exact .inr hd)⟩
      rw [hn c (by simp)]
      exact h.2

end Ak24.Chains
