import Mathlib

namespace Ak24.Words

variable {w : Nat}

def Covers (n r : BitVec w) (s : Nat) : Prop :=
  ∀ i, r.getLsbD i = true ↔ ∃ j, i ≤ j ∧ j < i + s ∧ n.getLsbD j = true

theorem covers_one (n : BitVec w) : Covers n n 1 := by
  intro i
  constructor
  · intro h
    exact ⟨i, le_rfl, by omega, h⟩
  · rintro ⟨j, hij, hji, h⟩
    obtain rfl : j = i := by omega
    exact h

theorem Covers.spread {n r : BitVec w} {s : Nat} (h : Covers n r s) : Covers n (r ||| r >>> s) (s + s) := by
  intro i
  rw [BitVec.getLsbD_or, BitVec.getLsbD_ushiftRight, Bool.or_eq_true, h i, h (s + i)]
  constructor
  · rintro (⟨j, hl, hu, hj⟩ | ⟨j, hl, hu, hj⟩)
    · exact ⟨j, by omega, by omega, hj⟩
    · exact ⟨j, by omega, by omega, hj⟩
  · rintro ⟨j, hl, hu, hj⟩
    by_cases hs : j < i + s
    · exact Or.inl ⟨j, hl, hs, hj⟩
    · exact Or.inr ⟨j, by omega, by omega, hj⟩

theorem exists_high_bit_iff (n i : Nat) : (∃ j, i ≤ j ∧ n.testBit j = true) ↔ i < n.size := by
  rw [Nat.lt_size]
  constructor
  · rintro ⟨j, hij, hj⟩
    exact (Nat.pow_le_pow_right (by norm_num) hij).trans (Nat.ge_two_pow_of_testBit hj)
  · intro h
    obtain ⟨j, hj, hb⟩ := Nat.exists_ge_and_testBit_of_ge_two_pow h
    exact ⟨j, hj, hb⟩

theorem Covers.toNat_eq {n r : BitVec w} {s : Nat} (h : Covers n r s) (hs : w ≤ s) :
    r.toNat = 2 ^ n.toNat.size - 1 := by
  apply Nat.eq_of_testBit_eq
  intro i
  rw [Nat.testBit_two_pow_sub_one, ← BitVec.getLsbD, Bool.eq_iff_iff, h i, decide_eq_true_iff,
    ← exists_high_bit_iff]
  constructor
  · rintro ⟨j, hij, _, hj⟩
    exact ⟨j, hij, hj⟩
  · rintro ⟨j, hij, hj⟩
    have hjw : j < w := by
      by_contra hge
      have := Nat.testBit_lt_two_pow (n.isLt.trans_le (Nat.pow_le_pow_right (by norm_num) (not_lt.mp hge)))
      rw [this] at hj
      exact Bool.false_ne_true hj
    exact ⟨j, hij, by omega, hj⟩

theorem isLeast_two_pow_size {n : Nat} (hn : n ≠ 0) :
    IsLeast {p : Nat | p.isPowerOfTwo ∧ n ≤ p} (2 ^ (n - 1).size) := by
  refine ⟨⟨⟨_, rfl⟩, ?_⟩, ?_⟩
  · have hlt := Nat.lt_size_self (n - 1)
    omega
  · rintro _ ⟨⟨k, rfl⟩, hk⟩
    have hsize : (n - 1).size ≤ k := Nat.size_le.mpr (by omega)
    exact Nat.pow_le_pow_right (by norm_num) hsize

theorem and_mask_toNat {x m : BitVec w} {k : Nat} (hm : m.toNat = 2 ^ k) :
    (x &&& (m - 1)).toNat = x.toNat % 2 ^ k := by
  have hpos : 0 < 2 ^ k := Nat.two_pow_pos k
  have hw : 0 < w := by
    by_contra h
    obtain rfl : w = 0 := by omega
    have := m.isLt
    omega
  have h1 : (1 : BitVec w).toNat = 1 := by
    simp only [BitVec.ofNat_eq_ofNat, BitVec.toNat_ofNat]
    exact Nat.mod_eq_of_lt (Nat.one_lt_two_pow (by omega))
  have hsub : (m - 1).toNat = 2 ^ k - 1 := by
    rw [BitVec.toNat_sub_of_le (by rw [BitVec.le_def, h1]; omega), hm, h1]
  rw [BitVec.toNat_and, hsub, Nat.and_two_pow_sub_one_eq_mod]

theorem ofNat_mod_two_pow {k : Nat} (hk : k ≤ w) (n : Nat) :
    (BitVec.ofNat w n).toNat % 2 ^ k = n % 2 ^ k := by
  rw [BitVec.toNat_ofNat, Nat.mod_mod_of_dvd _ (Nat.pow_dvd_pow 2 hk)]

theorem toInt_ofNat_sub {a b : Nat} {d : Int} (hd : (a : Int) - b = d) (hl : -(2 ^ 63) ≤ d) (hu : d < 2 ^ 63) :
    (BitVec.ofNat 64 a - BitVec.ofNat 64 b).toInt = d := by
  rw [BitVec.toInt_sub, BitVec.toInt_ofNat', BitVec.toInt_ofNat', Int.bmod_sub_bmod, Int.sub_bmod_bmod, hd]
  exact Int.bmod_eq_of_le (by norm_num; omega) (by norm_num; omega)

theorem mod_ne_of_window {n a b : Nat} (hab : a < b) (hb : b < a + n) : a % n ≠ b % n := by
  intro h
  have hd : n ∣ b - a := (Nat.modEq_iff_dvd' hab.le).mp h
  have := Nat.le_of_dvd (by omega) hd
  omega

theorem and_add_and_not_toNat (x m : BitVec w) : (x &&& m).toNat + (x &&& ~~~m).toNat = x.toNat := by
  have hzero : (x &&& m) &&& (x &&& ~~~m) = 0#w := by
    ext i hi
    simp only [BitVec.getElem_and, BitVec.getElem_not, BitVec.getElem_zero]
    cases x[i] <;> cases m[i] <;> rfl
  have hor : (x &&& m) ||| (x &&& ~~~m) = x := by
    ext i hi
    simp only [BitVec.getElem_and, BitVec.getElem_not, BitVec.getElem_or]
    cases x[i] <;> cases m[i] <;> rfl
  rw [← BitVec.toNat_add_of_and_eq_zero hzero, BitVec.add_eq_or_of_and_eq_zero _ _ hzero, hor]

/-- The loop that doubles a word up to a goal; `none` when it is not over after
`fuel` rounds. -/
def doubling (w : Nat) : Nat → Nat → Nat → Option Nat
  | 0, capacity, required => if capacity < required then none else some capacity
  | fuel + 1, capacity, required =>
    if capacity < required then doubling w fuel (capacity * 2 % 2 ^ w) required else some capacity

theorem doubling_ok {fuel capacity required : Nat} (hpos : 1 ≤ capacity) (hrequired : required * 2 ≤ 2 ^ w)
    (hfuel : required ≤ capacity * 2 ^ fuel) :
    ∃ c, doubling w fuel capacity required = some c ∧ required ≤ c ∧ capacity ≤ c := by
  induction fuel generalizing capacity with
  | zero => exact ⟨capacity, if_neg (by omega), by omega, le_rfl⟩
  | succ fuel ih =>
      unfold doubling
      split_ifs with hlt
      · rw [Nat.mod_eq_of_lt (by omega)]
        have hpos' : 1 ≤ capacity * 2 := by omega
        obtain ⟨c, hc, hge, hle⟩ := ih hpos' (by rw [Nat.mul_assoc, ← Nat.pow_succ']; exact hfuel)
        exact ⟨c, hc, hge, by omega⟩
      · exact ⟨capacity, rfl, by omega, le_rfl⟩

theorem doubling_zero {required : Nat} (hpos : 0 < required) (fuel : Nat) : doubling w fuel 0 required = none := by
  induction fuel with
  | zero => exact if_pos hpos
  | succ fuel ih => rwa [doubling, if_pos hpos, Nat.zero_mul, Nat.zero_mod]

/-- From a power of two the loop goes to powers of two, or past the highest one to 0,
where it stays. -/
theorem doubling_pow {fuel k required c : Nat} (hk : k < w) (hpos : 0 < required)
    (h : doubling w fuel (2 ^ k) required = some c) : required ≤ c ∧ ∃ j, k ≤ j ∧ j < w ∧ c = 2 ^ j := by
  induction fuel generalizing k with
  | zero =>
      unfold doubling at h
      split_ifs at h with hlt
      cases h
      exact ⟨by omega, k, le_rfl, hk, rfl⟩
  | succ fuel ih =>
      unfold doubling at h
      split_ifs at h with hlt
      · rw [← pow_succ] at h
        by_cases hk' : k + 1 < w
        · rw [Nat.mod_eq_of_lt (Nat.pow_lt_pow_right (by norm_num) hk')] at h
          obtain ⟨hge, j, hj, hjw, hc⟩ := ih hk' h
          exact ⟨hge, j, by omega, hjw, hc⟩
        · rw [show k + 1 = w by omega, Nat.mod_self, doubling_zero hpos] at h
          cases h
      · cases h
        exact ⟨by omega, k, le_rfl, hk, rfl⟩

theorem doubling_endless {k required : Nat} (hk : k < w) (hlt : 2 ^ (w - 1) < required) (fuel : Nat) :
    doubling w fuel (2 ^ k) required = none := by
  by_contra hsome
  obtain ⟨c, hc⟩ := Option.ne_none_iff_exists'.mp hsome
  obtain ⟨hge, j, -, hj, rfl⟩ := doubling_pow hk (Nat.zero_lt_of_lt hlt) hc
  have hpow : 2 ^ j ≤ 2 ^ (w - 1) := Nat.pow_le_pow_right (by norm_num) (by omega)
  omega

theorem toNat_sum_of_lt {l : List (BitVec w)} (h : (l.map BitVec.toNat).sum < 2 ^ w) :
    l.sum.toNat = (l.map BitVec.toNat).sum := by
  induction l with
  | nil => simp
  | cons x l ih =>
      rw [List.map_cons, List.sum_cons] at h
      have hrest := ih (by omega)
      rw [List.sum_cons, List.map_cons, List.sum_cons, BitVec.toNat_add_of_lt (by omega), hrest]

end Ak24.Words
