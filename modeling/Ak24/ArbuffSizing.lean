import Ak24.ArbuffSequential

namespace Ak24.ArbuffSizing

open ArbuffModel ArbuffSequential Words

variable {α : Type}

/-- The sizes that a buffer for a capacity should have: those of the next power of
two, and of an array with a slot for each of its places. -/
structure Sized (c : Size) (b : Arbuff α) : Prop where
  capacity : IsLeast {p : Nat | p.isPowerOfTwo ∧ c.toNat ≤ p} b.capacity.toNat
  mask : b.mask = b.capacity - 1
  bytes : (slotBytes b.capacity).toNat = 16 * b.capacity.toNat

section Rounding

variable {c : Size}

theorem toNat_sub_one (hc : c ≠ 0) : (c - 1).toNat = c.toNat - 1 := by
  have hpos : c.toNat ≠ 0 := fun h => hc (BitVec.eq_of_toNat_eq h)
  exact BitVec.toNat_sub_of_le (by rw [BitVec.le_def]; simp; omega)

theorem nextPowerOf2_isLeast (hc : c ≠ 0) (hle : c.toNat ≤ 2 ^ 63) :
    IsLeast {p : Nat | p.isPowerOfTwo ∧ c.toNat ≤ p} (nextPowerOf2 c).toNat := by
  have hpos : c.toNat ≠ 0 := fun h => hc (BitVec.eq_of_toNat_eq h)
  have hsize : (c.toNat - 1).size ≤ 63 := Nat.size_le.mpr (by omega)
  have hlt : 2 ^ (c.toNat - 1).size < 2 ^ 64 := Nat.pow_lt_pow_right (by norm_num) (by omega)
  rw [nextPowerOf2_eq hc, toNat_sub_one hc, BitVec.toNat_ofNat, Nat.mod_eq_of_lt hlt]
  exact isLeast_two_pow_size hpos

theorem nextPowerOf2_wraps (hlt : 2 ^ 63 < c.toNat) : nextPowerOf2 c = 0 := by
  have hc : c ≠ 0 := by
    rintro rfl
    simp at hlt
  have hsize : 63 < (c.toNat - 1).size := Nat.lt_size.mpr (by omega)
  have hsize' : (c.toNat - 1).size ≤ 64 := Nat.size_le.mpr (by omega)
  rw [nextPowerOf2_eq hc, toNat_sub_one hc, show (c.toNat - 1).size = 64 by omega]
  rfl

theorem slotBytes_toNat {capacity : Size} (hlt : capacity.toNat < 2 ^ 60) :
    (slotBytes capacity).toNat = 16 * capacity.toNat := by
  rw [slotBytes, BitVec.toNat_mul]
  exact Nat.mod_eq_of_lt (by simp; omega)

theorem slotBytes_wraps (hlt : 2 ^ 59 < c.toNat) : slotBytes (nextPowerOf2 c) = 0 := by
  by_cases hle : c.toNat ≤ 2 ^ 63
  · have hc : c ≠ 0 := by
      rintro rfl
      simp at hlt
    obtain ⟨⟨⟨k, hk⟩, hge⟩, -⟩ := nextPowerOf2_isLeast hc hle
    have hk60 : 60 ≤ k := by
      by_contra hlow
      have hpow : 2 ^ k ≤ 2 ^ 59 := Nat.pow_le_pow_right (by norm_num) (by omega)
      omega
    apply BitVec.eq_of_toNat_eq
    rw [slotBytes, BitVec.toNat_mul, hk]
    exact Nat.mod_eq_zero_of_dvd ((Nat.pow_dvd_pow 2 (by omega : 64 ≤ 4 + k)).trans (by rw [pow_add]; rfl))
  · rw [nextPowerOf2_wraps (by omega)]
    rfl

end Rounding

section Constructor

variable {alloc : Size → Bool} {c : Size}

theorem akArbuffNew_refused (h : c = 0 ∨ alloc 40 = false ∨ alloc (slotBytes (nextPowerOf2 c)) = false) :
    akArbuffNew α alloc c = .ok none := by
  rcases h with rfl | hbuffer | hslots
  · rfl
  · simp only [akArbuffNew, hbuffer, Bool.not_false, ↓reduceIte, ite_self]
  · simp only [akArbuffNew, hslots, Bool.not_false, ↓reduceIte, ite_self]

theorem akArbuffNew_granted (hc : c ≠ 0) (hbuffer : alloc 40 = true)
    (hslots : alloc (slotBytes (nextPowerOf2 c)) = true) :
    akArbuffNew α alloc c =
      (initSlots α ((slotBytes (nextPowerOf2 c)).toNat / 16) (nextPowerOf2 c).toNat).map fun slots =>
        some ⟨slots, nextPowerOf2 c, nextPowerOf2 c - 1, 0, 0⟩ := by
  simp only [akArbuffNew, hbuffer, hslots, Bool.not_true, Bool.false_eq_true, ↓reduceIte, if_neg hc]
  rfl

theorem exists_of_granted (hc : c ≠ 0) (hbuffer : alloc 40 = true) (hslots : alloc (slotBytes (nextPowerOf2 c)) = true)
    {r : Option (Arbuff α)} (h : akArbuffNew α alloc c = .ok r) : ∃ b, r = some b := by
  rw [akArbuffNew_granted hc hbuffer hslots] at h
  cases hinit : initSlots α ((slotBytes (nextPowerOf2 c)).toNat / 16) (nextPowerOf2 c).toNat with
  | error fault =>
      rw [hinit] at h
      cases h
  | ok slots =>
      rw [hinit] at h
      cases h
      exact ⟨_, rfl⟩

theorem initSlots_total {room n : Nat} (h : n ≤ room) : ∃ slots, initSlots α room n = .ok slots := by
  induction n with
  | zero => exact ⟨[], rfl⟩
  | succ n ih =>
      obtain ⟨slots, hslots⟩ := ih (by omega)
      refine ⟨slots ++ [⟨none, BitVec.ofNat 64 n⟩], ?_⟩
      simp only [initSlots, hslots, bind, Except.bind]
      rw [if_pos (by omega)]

theorem sized_of_ok {b : Arbuff α} (h : akArbuffNew α alloc c = .ok (some b)) (hle : c.toNat ≤ 2 ^ 63) :
    Sized c b ∧ c.toNat ≤ 2 ^ 59 := by
  have hc : c ≠ 0 := by
    rintro rfl
    cases h
  obtain ⟨hcapacity, ⟨k, hb⟩ | hb⟩ := akArbuffNew_ok h
  · have hleast := nextPowerOf2_isLeast hc hle
    rw [← hcapacity] at hleast
    have hpow : 2 ^ k ≤ 2 ^ 59 := Nat.pow_le_pow_right (by norm_num) hb.small
    have hsmall : b.capacity.toNat ≤ 2 ^ 59 := hb.capacity.trans_le hpow
    exact ⟨⟨hleast, hb.mask, slotBytes_toNat (by omega)⟩, hleast.1.2.trans hsmall⟩
  · -- no power of two is 0
    obtain ⟨⟨⟨k, hk⟩, -⟩, -⟩ := nextPowerOf2_isLeast hc hle
    rw [← hcapacity, hb] at hk
    exact absurd hk.symm (Nat.two_pow_pos k).ne'

theorem akArbuffNew_total (hle : c.toNat ≤ 2 ^ 59) : ∃ r : Option (Arbuff α), akArbuffNew α alloc c = .ok r := by
  by_cases hrefused : c = 0 ∨ alloc 40 = false ∨ alloc (slotBytes (nextPowerOf2 c)) = false
  · exact ⟨none, akArbuffNew_refused hrefused⟩
  · push Not at hrefused
    obtain ⟨hc, hbuffer, hslots⟩ := hrefused
    have hcapacity : (nextPowerOf2 c).toNat ≤ 2 ^ 59 :=
      (nextPowerOf2_isLeast hc (by omega)).2 ⟨⟨59, rfl⟩, hle⟩
    have hbytes : (slotBytes (nextPowerOf2 c)).toNat = 16 * (nextPowerOf2 c).toNat := slotBytes_toNat (by omega)
    obtain ⟨slots, hinit⟩ : ∃ slots,
        initSlots α ((slotBytes (nextPowerOf2 c)).toNat / 16) (nextPowerOf2 c).toNat = .ok slots :=
      initSlots_total (by omega)
    rw [akArbuffNew_granted hc (by simpa using hbuffer) (by simpa using hslots), hinit]
    exact ⟨_, rfl⟩

theorem akArbuffNew_wraps (hlt : 2 ^ 63 < c.toNat) (hbuffer : alloc 40 = true) (hslots : alloc 0 = true) :
    akArbuffNew α alloc c = .ok (some ⟨[], 0, 0 - 1, 0, 0⟩) := by
  have hc : c ≠ 0 := by
    rintro rfl
    simp at hlt
  have hbytes : slotBytes (nextPowerOf2 c) = 0 := slotBytes_wraps (by omega)
  rw [akArbuffNew_granted hc hbuffer (by rwa [hbytes]), nextPowerOf2_wraps hlt]
  rfl

theorem not_sized_wraps (slots : List (Slot α)) : ¬Sized c ⟨slots, 0, 0 - 1, 0, 0⟩ := by
  intro h
  obtain ⟨⟨k, hk⟩, -⟩ := h.capacity.1
  exact absurd hk.symm (Nat.two_pow_pos k).ne'

end Constructor

/-- Every buffer that is returned has the right sizes where the rounding does not
wrap. The call also ends, and does not write outside of its array, where the size of
the array does not wrap; a request that is refused does no harm. -/
theorem akArbuffNew_sized_iff (alloc : Size → Bool) (c : Size) :
    ((∀ b : Arbuff α, akArbuffNew α alloc c = .ok (some b) → Sized c b) ↔
      c.toNat ≤ 2 ^ 63 ∨ alloc 40 = false ∨ alloc 0 = false) ∧
    ((∃ r : Option (Arbuff α), akArbuffNew α alloc c = .ok r ∧ ∀ b, r = some b → Sized c b) ↔
      c.toNat ≤ 2 ^ 59 ∨ alloc 40 = false ∨ alloc 0 = false) := by
  have hrefused : 2 ^ 59 < c.toNat → alloc 40 = false ∨ alloc 0 = false → akArbuffNew α alloc c = .ok none := by
    intro hlt h
    apply akArbuffNew_refused
    rw [slotBytes_wraps hlt]
    exact .inr h
  refine ⟨⟨fun h => ?_, fun h b hb => ?_⟩, ⟨?_, fun h => ?_⟩⟩
  · by_contra hnot
    push Not at hnot
    obtain ⟨hlt, hbuffer, hslots⟩ := hnot
    exact not_sized_wraps _ (h _ (akArbuffNew_wraps hlt (by simpa using hbuffer) (by simpa using hslots)))
  · by_cases hle : c.toNat ≤ 2 ^ 63
    · exact (sized_of_ok hb hle).1
    · rw [hrefused (by omega) (h.resolve_left hle)] at hb
      cases hb
  · rintro ⟨r, hr, hsized⟩
    by_contra hnot
    push Not at hnot
    obtain ⟨hlt, hbuffer, hslots⟩ := hnot
    have hc : c ≠ 0 := by
      rintro rfl
      simp at hlt
    obtain ⟨b, rfl⟩ := exists_of_granted hc (by simpa using hbuffer)
      (by rw [slotBytes_wraps hlt]; simpa using hslots) hr
    by_cases hle : c.toNat ≤ 2 ^ 63
    · have hsmall := (sized_of_ok hr hle).2
      omega
    · rw [akArbuffNew_wraps (by omega) (by simpa using hbuffer) (by simpa using hslots)] at hr
      cases hr
      exact not_sized_wraps [] (hsized _ rfl)
  · by_cases hle : c.toNat ≤ 2 ^ 59
    · obtain ⟨r, hr⟩ : ∃ r : Option (Arbuff α), akArbuffNew α alloc c = .ok r := akArbuffNew_total hle
      exact ⟨r, hr, fun b hb => (sized_of_ok (hb ▸ hr) (by omega)).1⟩
    · exact ⟨none, hrefused (by omega) (h.resolve_left hle), fun b hb => nomatch hb⟩

/-- A capacity that rounds up past the end of a word: where an allocation of no bytes
is granted, the buffer that is returned has the capacity 0. -/
theorem akArbuffNew_capacity_zero : ∃ b : Arbuff Nat,
    akArbuffNew Nat (fun _ => true) 0x8000000000000001#64 = .ok (some b) ∧ b.capacity = 0 ∧
      b.mask = BitVec.allOnes 64 ∧ ¬Sized 0x8000000000000001#64 b :=
  ⟨_, akArbuffNew_wraps (by decide) rfl rfl, rfl, rfl, not_sized_wraps []⟩

end Ak24.ArbuffSizing
