import Mathlib

namespace Ak24.RateWindow

structure Window where
  last : Nat
  count : Nat
  deriving DecidableEq, Repr

def Window.attempt (limit now : Nat) (w : Window) : Bool × Window :=
  if w.last = now then
    if limit ≤ w.count then (false, w) else (true, ⟨w.last, w.count + 1⟩)
  else (true, ⟨now, 1⟩)

structure Tallied (limit : Nat) (passes : List Nat) (w : Window) : Prop where
  current : passes.count w.last = w.count
  past : ∀ t ∈ passes, t ≤ w.last
  bounded : ∀ t, passes.count t ≤ limit

variable {limit now : Nat} {passes : List Nat} {w w' : Window}

theorem Window.attempt_full (hsame : w.last = now) (hfull : limit ≤ w.count) : w.attempt limit now = (false, w) := by
  rw [Window.attempt, if_pos hsame, if_pos hfull]

theorem Window.attempt_room (hsame : w.last = now) (hroom : ¬ limit ≤ w.count) :
    w.attempt limit now = (true, ⟨w.last, w.count + 1⟩) := by
  rw [Window.attempt, if_pos hsame, if_neg hroom]

theorem Window.attempt_new (hnew : w.last ≠ now) : w.attempt limit now = (true, ⟨now, 1⟩) := by
  rw [Window.attempt, if_neg hnew]

theorem Tallied.fresh (limit : Nat) : Tallied limit [] ⟨0, 0⟩ :=
  ⟨rfl, fun _ ht => absurd ht List.not_mem_nil, fun _ => Nat.zero_le limit⟩

theorem Tallied.count_eq_zero (h : Tallied limit passes w) (hlt : w.last < now) : passes.count now = 0 := by
  rw [List.count_eq_zero]
  intro hmem
  exact absurd (h.past now hmem) (Nat.not_le_of_lt hlt)

theorem Tallied.pass (h : Tallied limit passes w) (hpos : 0 < limit) (hnow : w.last ≤ now)
    (ha : w.attempt limit now = (true, w')) : Tallied limit (passes ++ [now]) w' ∧ w'.last = now := by
  have hcount (t : Nat) : (passes ++ [now]).count t = passes.count t + if now = t then 1 else 0 := by
    rw [List.count_append, List.count_singleton]
    simp only [beq_iff_eq]
  have hmem (last : Nat) (hle : w.last ≤ last) (hlast : now = last) (t : Nat) (ht : t ∈ passes ++ [now]) :
      t ≤ last := by
    rcases List.mem_append.mp ht with ht | ht
    · exact (h.past t ht).trans hle
    · rw [List.mem_singleton.mp ht, hlast]
  rw [Window.attempt] at ha
  split_ifs at ha with hsame hfull
  · cases ha
  · -- The window goes on.
    cases ha
    subst hsame
    refine ⟨⟨?_, hmem _ le_rfl rfl, fun t => ?_⟩, rfl⟩
    · rw [hcount, if_pos rfl, h.current]
    · rw [hcount]
      have hold := h.bounded t
      have hcurrent := h.current
      split_ifs with ht
      · subst ht
        omega
      · exact hold
  · -- A new window begins: nothing has passed in it.
    cases ha
    have hzero := h.count_eq_zero (lt_of_le_of_ne hnow hsame)
    refine ⟨⟨?_, hmem _ hnow rfl, fun t => ?_⟩, rfl⟩
    · rw [hcount, if_pos rfl, hzero]
    · rw [hcount]
      have hold := h.bounded t
      split_ifs with ht
      · subst ht
        omega
      · exact hold

theorem Tallied.refuse (h : Tallied limit passes w) (ha : w.attempt limit now = (false, w')) :
    passes.count now = limit ∧ w' = w := by
  rw [Window.attempt] at ha
  split_ifs at ha with hsame hfull
  · cases ha
    subst hsame
    have hbound := h.bounded w.last
    have hcurrent := h.current
    exact ⟨by omega, rfl⟩
  · cases ha
  · cases ha

end Ak24.RateWindow
