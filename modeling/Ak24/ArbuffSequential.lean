import Ak24.ArbuffModel

namespace Ak24.ArbuffSequential

open BoundedQueue ArbuffModel Words

variable {α : Type}

/-- The buffer holds the queue `q` after `popped` items have left it. Over one
lap starting at the tail, every slot carries the sequence of its own ticket:
one past it when the item is there, the ticket itself when the slot is free. -/
structure Represents (b : Arbuff α) (k popped : Nat) (q : List α) : Prop where
  small : k ≤ 59
  capacity : b.capacity.toNat = 2 ^ k
  mask : b.mask = b.capacity - 1
  slots : b.slots.length = 2 ^ k
  fits : q.length ≤ 2 ^ k
  head : b.head = BitVec.ofNat 64 (popped + q.length)
  tail : b.tail = BitVec.ofNat 64 popped
  filled : ∀ j (h : j < q.length),
    b.slots[(popped + j) % 2 ^ k]? = some ⟨some q[j], BitVec.ofNat 64 (popped + j + 1)⟩
  free : ∀ j, q.length ≤ j → j < 2 ^ k →
    ∃ v, b.slots[(popped + j) % 2 ^ k]? = some ⟨v, BitVec.ofNat 64 (popped + j)⟩

theorem nextPowerOf2_eq {c : Size} (h : c ≠ 0) :
    nextPowerOf2 c = BitVec.ofNat 64 (2 ^ (c - 1).toNat.size) := by
  have hc := ((((((covers_one (c - 1)).spread).spread).spread).spread).spread).spread.toNat_eq (by norm_num)
  have hp := Nat.two_pow_pos (c - 1).toNat.size
  rw [nextPowerOf2, if_neg h]
  apply BitVec.eq_of_toNat_eq
  rw [BitVec.toNat_add]
  refine Eq.trans (congrArg (fun n => (n + 1) % 2 ^ 64) hc) ?_
  rw [Nat.sub_add_cancel hp, BitVec.toNat_ofNat]

theorem nextPowerOf2_cases {c : Size} (h : c ≠ 0) :
    (∃ k, k ≤ 63 ∧ (nextPowerOf2 c).toNat = 2 ^ k) ∨ nextPowerOf2 c = 0 := by
  rw [nextPowerOf2_eq h]
  by_cases hs : (c - 1).toNat.size ≤ 63
  · refine Or.inl ⟨_, hs, ?_⟩
    rw [BitVec.toNat_ofNat, Nat.mod_eq_of_lt (Nat.pow_lt_pow_right (by norm_num) (by omega))]
  · right
    have he : (c - 1).toNat.size = 64 := by
      have := Nat.size_le.mpr (c - 1).isLt
      omega
    rw [he]
    rfl

theorem initSlots_ok {room n : Nat} {slots : List (Slot α)} (h : initSlots α room n = .ok slots) :
    n ≤ room ∧ slots.length = n ∧ ∀ i < n, slots[i]? = some ⟨none, BitVec.ofNat 64 i⟩ := by
  induction n generalizing slots with
  | zero =>
      cases h
      exact ⟨Nat.zero_le _, rfl, fun i hi => absurd hi (Nat.not_lt_zero i)⟩
  | succ n ih =>
      cases hr : initSlots α room n with
      | error e => simp [initSlots, hr, bind, Except.bind] at h
      | ok init =>
          obtain ⟨hroom, hlen, hget⟩ := ih hr
          simp only [initSlots, hr, bind, Except.bind] at h
          split_ifs at h with hn
          cases h
          refine ⟨hn, by simp [hlen], ?_⟩
          intro i hi
          by_cases he : i < n
          · rw [List.getElem?_append_left (by omega)]
            exact hget i he
          · obtain rfl : i = n := by omega
            simp [hlen]

theorem akArbuffNew_ok {alloc : Size → Bool} {c : Size} {b : Arbuff α}
    (h : akArbuffNew α alloc c = .ok (some b)) :
    b.capacity = nextPowerOf2 c ∧
      ((∃ k, Represents b k 0 []) ∨ b = ⟨[], 0, 0 - 1, 0, 0⟩) := by
  simp only [akArbuffNew] at h
  split_ifs at h with hc
  · simp at h
  · simp at h
  · simp at h
  · cases hi : initSlots α ((slotBytes (nextPowerOf2 c)).toNat / 16) (nextPowerOf2 c).toNat with
    | error e => simp [hi, bind, Except.bind] at h
    | ok slots =>
        simp only [hi, bind, Except.bind, Except.ok.injEq, Option.some.injEq] at h
        subst h
        obtain ⟨hroom, hlen, hget⟩ := initSlots_ok hi
        refine ⟨rfl, ?_⟩
        rcases nextPowerOf2_cases hc with ⟨k, hk, hp⟩ | hz
        · left
          have hk' : k ≤ 59 := by
            by_contra hgt
            have hb : (slotBytes (nextPowerOf2 c)).toNat = 2 ^ (k + 4) % 2 ^ 64 := by
              rw [slotBytes, BitVec.toNat_mul, hp, pow_add, Nat.mul_comm]
              rfl
            rw [hb, Nat.mod_eq_zero_of_dvd (Nat.pow_dvd_pow 2 (by omega)), hp] at hroom
            have := Nat.two_pow_pos k
            omega
          refine ⟨k, hk', hp, rfl, by rw [hlen, hp], by simp, rfl, rfl, ?_, ?_⟩
          · intro j hj
            simp at hj
          · intro j _ hj
            refine ⟨none, ?_⟩
            rw [Nat.zero_add, Nat.mod_eq_of_lt hj]
            exact hget j (by omega)
        · right
          rw [hz] at hlen ⊢
          rw [List.length_eq_zero_iff.mp hlen]

section Calls

variable {b : Arbuff α} {k popped : Nat} {q : List α}

theorem slotAt_ofNat (h : Represents b k popped q) {n : Nat} {slot : Slot α}
    (hs : b.slots[n % 2 ^ k]? = some slot) : b.slotAt (BitVec.ofNat 64 n) = .ok slot := by
  have hk := h.small
  rw [Arbuff.slotAt, h.mask, and_mask_toNat h.capacity, ofNat_mod_two_pow (by omega), hs]

theorem setSlot_slots (h : Represents b k popped q) (n : Nat) (slot : Slot α) :
    (b.setSlot (BitVec.ofNat 64 n) slot).slots = b.slots.set (n % 2 ^ k) slot := by
  have hk := h.small
  rw [Arbuff.setSlot, h.mask, and_mask_toNat h.capacity, ofNat_mod_two_pow (by omega)]

theorem acquire_granted {index expected : Size} {slot : Slot α} (hs : b.slotAt index = .ok slot)
    (hd : diff slot.sequence expected = 0) {fuel spurious : Nat} (hf : spurious < fuel) :
    acquire b index expected fuel spurious = .ok (some index) := by
  induction fuel generalizing spurious with
  | zero => omega
  | succ fuel ih =>
      simp only [acquire, hs, bind, Except.bind, hd, if_true]
      cases spurious with
      | zero => rfl
      | succ spurious => exact ih (by omega)

theorem acquire_refused {index expected : Size} {slot : Slot α} (hs : b.slotAt index = .ok slot)
    (hd : diff slot.sequence expected < 0) {fuel spurious : Nat} (hf : spurious < fuel) :
    acquire b index expected fuel spurious = .ok none := by
  cases fuel with
  | zero => omega
  | succ fuel =>
      simp only [acquire, hs, bind, Except.bind, hd, if_true]
      rw [if_neg (by omega)]

theorem ofNat_add_one (n : Nat) : BitVec.ofNat 64 n + 1 = BitVec.ofNat 64 (n + 1) :=
  (BitVec.ofNat_add n 1).symm

theorem diff_ofNat {m n : Nat} {d : Int} (hd : (m : Int) - n = d) (hl : -(2 ^ 63) ≤ d) (hu : d < 2 ^ 63) :
    diff (BitVec.ofNat 64 m) (BitVec.ofNat 64 n) = d := toInt_ofNat_sub hd hl hu

theorem diff_self (x : Size) : diff x x = 0 := by simp [diff]

theorem push_granted {slot : Slot α} (hs : b.slotAt b.head = .ok slot) (he : slot.sequence = b.head)
    (a : α) {fuel spurious : Nat} (hf : spurious < fuel) :
    exec fuel b (.push a, spurious) =
      .ok (.status 0, { b with head := b.head + 1 }.setSlot b.head ⟨some a, b.head + 1⟩) := by
  have hacq := acquire_granted (b := b) hs (by rw [he]; exact diff_self b.head) hf
  have hs' : ({ b with head := b.head + 1 } : Arbuff α).slotAt b.head = .ok slot := hs
  simp only [exec, akArbuffPush, hacq, bind, Except.bind, hs']

theorem pop_granted {slot : Slot α} (hs : b.slotAt b.tail = .ok slot) (he : slot.sequence = b.tail + 1)
    {fuel spurious : Nat} (hf : spurious < fuel) :
    exec fuel b (.pop, spurious) =
      .ok (.item slot.value,
        { b with tail := b.tail + 1 }.setSlot b.tail { slot with sequence := b.tail + b.mask + 1 }) := by
  have hacq := acquire_granted (b := b) hs (by rw [he]; exact diff_self (b.tail + 1)) hf
  have hs' : ({ b with tail := b.tail + 1 } : Arbuff α).slotAt b.tail = .ok slot := hs
  simp only [exec, akArbuffPop, hacq, bind, Except.bind, hs']

theorem push_free (h : Represents b k popped q) (hlt : q.length < 2 ^ k) (a : α) {fuel spurious : Nat}
    (hf : spurious < fuel) :
    ∃ b', exec fuel b (.push a, spurious) = .ok (.status 0, b') ∧ Represents b' k popped (q ++ [a]) := by
  obtain ⟨v, hv⟩ := h.free q.length le_rfl hlt
  have hs := slotAt_ofNat h hv
  rw [← h.head] at hs
  refine ⟨_, push_granted hs rfl a hf, ?_⟩
  have hset : ({ b with head := b.head + 1 }.setSlot b.head ⟨some a, b.head + 1⟩).slots =
      b.slots.set ((popped + q.length) % 2 ^ k) ⟨some a, BitVec.ofNat 64 (popped + q.length + 1)⟩ := by
    rw [← ofNat_add_one, ← h.head, ← setSlot_slots h, ← h.head]
    rfl
  have hidx : (popped + q.length) % 2 ^ k < b.slots.length := by
    rw [h.slots]
    exact Nat.mod_lt _ (Nat.two_pow_pos k)
  refine ⟨h.small, h.capacity, h.mask, ?_, by simp; omega, ?_, h.tail, ?_, ?_⟩
  · rw [hset, List.length_set, h.slots]
  · rw [Arbuff.setSlot, h.head, ofNat_add_one, List.length_append, List.length_singleton, Nat.add_assoc]
  · intro j hj
    rw [hset]
    by_cases he : j < q.length
    · have hne := mod_ne_of_window (n := 2 ^ k) (show popped + j < popped + q.length by omega) (by omega)
      rw [List.getElem?_set_ne (Ne.symm hne), h.filled j he, List.getElem_append_left he]
    · obtain rfl : j = q.length := by simp at hj; omega
      rw [List.getElem?_set_self hidx, List.getElem_concat_length rfl]
  · intro j hj hjk
    have hj' : q.length + 1 ≤ j := by simpa using hj
    obtain ⟨u, hu⟩ := h.free j (by omega) hjk
    have hne := mod_ne_of_window (n := 2 ^ k) (show popped + q.length < popped + j by omega) (by omega)
    exact ⟨u, by rw [hset, List.getElem?_set_ne hne, hu]⟩

theorem push_full (h : Represents b k popped q) (hlen : q.length = 2 ^ k) (hk : 1 ≤ k) (a : α)
    {fuel spurious : Nat} (hf : spurious < fuel) :
    exec fuel b (.push a, spurious) = .ok (.status (-1), b) := by
  have hpos : 0 < q.length := hlen ▸ Nat.two_pow_pos k
  have htwo : 2 ^ 1 ≤ 2 ^ k := Nat.pow_le_pow_right (by norm_num) hk
  have hbig : 2 ^ k ≤ 2 ^ 59 := Nat.pow_le_pow_right (by norm_num) h.small
  have hidx : (popped + q.length) % 2 ^ k = (popped + 0) % 2 ^ k := by
    rw [hlen, Nat.add_mod_right, Nat.add_zero]
  have hs := slotAt_ofNat h (hidx ▸ h.filled 0 hpos)
  have hd : diff (BitVec.ofNat 64 (popped + 0 + 1)) (BitVec.ofNat 64 (popped + q.length)) = 1 - (q.length : Int) :=
    diff_ofNat (by push_cast; ring) (by omega) (by omega)
  have hacq := acquire_refused (b := b) hs (by rw [hd]; omega) hf
  simp only [exec, akArbuffPush, h.head, hacq, bind, Except.bind]

/-- With a single slot "filled" and "free for the next lap" are the same
sequence, so a push into the full buffer goes through. -/
theorem push_single (h : Represents b 0 popped q) (hlen : q.length = 1) (a : α) {fuel spurious : Nat}
    (hf : spurious < fuel) : ∃ b', exec fuel b (.push a, spurious) = .ok (.status 0, b') := by
  have hidx : (popped + q.length) % 2 ^ 0 = (popped + 0) % 2 ^ 0 := by
    rw [pow_zero, Nat.mod_one, Nat.mod_one]
  have hs := slotAt_ofNat h (hidx ▸ h.filled 0 (by omega))
  rw [← h.head] at hs
  have hseq : BitVec.ofNat 64 (popped + 0 + 1) = b.head := by rw [h.head, hlen]
  exact ⟨_, push_granted hs hseq a hf⟩

theorem pop_filled {x : α} {q : List α} (h : Represents b k popped (x :: q)) {fuel spurious : Nat}
    (hf : spurious < fuel) :
    ∃ b', exec fuel b (.pop, spurious) = .ok (.item (some x), b') ∧ Represents b' k (popped + 1) q := by
  have hk := h.small
  have hfits : q.length + 1 ≤ 2 ^ k := h.fits
  have hv := h.filled 0 (by simp)
  have hs := slotAt_ofNat h hv
  rw [Nat.add_zero, ← h.tail] at hs
  refine ⟨_, pop_granted hs (by rw [h.tail, ofNat_add_one]) hf, ?_⟩
  have hmask : b.tail + b.mask + 1 = BitVec.ofNat 64 (popped + 2 ^ k) := by
    have hc : b.capacity = BitVec.ofNat 64 (2 ^ k) := by
      rw [← h.capacity, BitVec.ofNat_toNat, BitVec.setWidth_eq]
    rw [h.mask, h.tail, BitVec.add_assoc, BitVec.sub_add_cancel, hc, ← BitVec.ofNat_add]
  have hset : ({ b with tail := b.tail + 1 }.setSlot b.tail
      ⟨some x, b.tail + b.mask + 1⟩).slots =
      b.slots.set (popped % 2 ^ k) ⟨some x, BitVec.ofNat 64 (popped + 2 ^ k)⟩ := by
    rw [hmask, ← setSlot_slots h, ← h.tail]
    rfl
  have hidx : popped % 2 ^ k < b.slots.length := by
    rw [h.slots]
    exact Nat.mod_lt _ (Nat.two_pow_pos k)
  refine ⟨h.small, h.capacity, h.mask, ?_, by omega, ?_, ?_, ?_, ?_⟩
  · exact (congrArg List.length hset).trans (by rw [List.length_set, h.slots])
  · rw [Arbuff.setSlot, h.head, List.length_cons]
    congr 1
    omega
  · rw [Arbuff.setSlot, h.tail, ofNat_add_one]
  · intro j hj
    have hne := mod_ne_of_window (n := 2 ^ k) (show popped < popped + 1 + j by omega) (by omega)
    have hfill := h.filled (j + 1) (by simpa using hj)
    rw [List.getElem_cons_succ, show popped + (j + 1) = popped + 1 + j by omega] at hfill
    exact (congrArg (·[(popped + 1 + j) % 2 ^ k]?) hset).trans (by rw [List.getElem?_set_ne hne, hfill])
  · intro j hj hjk
    by_cases he : j + 1 < 2 ^ k
    · obtain ⟨u, hu⟩ := h.free (j + 1) (by simpa using hj) he
      rw [show popped + (j + 1) = popped + 1 + j by omega] at hu
      have hne := mod_ne_of_window (n := 2 ^ k) (show popped < popped + 1 + j by omega) (by omega)
      exact ⟨u, (congrArg (·[(popped + 1 + j) % 2 ^ k]?) hset).trans (by rw [List.getElem?_set_ne hne, hu])⟩
    · -- the slot just released is the last one of the next lap
      have hlast : popped + 1 + j = popped + 2 ^ k := by omega
      refine ⟨some x, (congrArg (·[(popped + 1 + j) % 2 ^ k]?) hset).trans ?_⟩
      rw [hlast, Nat.add_mod_right, List.getElem?_set_self hidx]

theorem tail_slot_empty (h : Represents b k popped ([] : List α)) :
    ∃ slot, b.slotAt b.tail = .ok slot ∧ diff slot.sequence (b.tail + 1) = -1 := by
  obtain ⟨v, hv⟩ := h.free 0 (by simp) (Nat.two_pow_pos k)
  rw [Nat.add_zero] at hv
  refine ⟨_, h.tail ▸ slotAt_ofNat h hv, ?_⟩
  rw [h.tail, ofNat_add_one]
  exact diff_ofNat (by push_cast; ring) (by norm_num) (by norm_num)

theorem pop_empty (h : Represents b k popped []) {fuel spurious : Nat} (hf : spurious < fuel) :
    exec fuel b (.pop, spurious) = .ok (.item none, b) := by
  obtain ⟨slot, hs, hd⟩ := tail_slot_empty h
  have hacq := acquire_refused (b := b) hs (by rw [hd]; norm_num) hf
  simp only [exec, akArbuffPop, hacq, bind, Except.bind]

theorem peek_spec (h : Represents b k popped q) (fuel spurious : Nat) :
    exec fuel b (.peek, spurious) = .ok (.item q.head?, b) := by
  cases q with
  | nil =>
      obtain ⟨slot, hs, hd⟩ := tail_slot_empty h
      simp only [exec, akArbuffPeek, hs, bind, Except.bind, hd]
      rfl
  | cons x q =>
      have hs := slotAt_ofNat h (h.filled 0 (by simp))
      rw [Nat.add_zero, ← h.tail] at hs
      simp only [exec, akArbuffPeek, hs, bind, Except.bind]
      rw [if_pos (by rw [← ofNat_add_one, ← h.tail]; exact diff_self _)]
      rfl

theorem count_spec (h : Represents b k popped q) (fuel spurious : Nat) :
    ∃ n, exec fuel b (.count, spurious) = .ok (.size n, b) ∧
      (n = q.length ↔ popped % 2 ^ 64 + q.length < 2 ^ 64) := by
  have hbig : 2 ^ k ≤ 2 ^ 59 := Nat.pow_le_pow_right (by norm_num) h.small
  have hfits := h.fits
  refine ⟨_, rfl, ?_⟩
  have ht : b.tail.toNat = popped % 2 ^ 64 := by rw [h.tail, BitVec.toNat_ofNat]
  have hh : b.head.toNat = (popped + q.length) % 2 ^ 64 := by rw [h.head, BitVec.toNat_ofNat]
  rw [akArbuffCount]
  split_ifs with hle
  · rw [BitVec.le_def] at hle
    rw [BitVec.toNat_sub_of_le (by rw [BitVec.le_def]; exact hle), hh, ht]
    omega
  · rw [BitVec.le_def] at hle
    simp only [BitVec.ofNat_eq_ofNat, BitVec.toNat_ofNat, Nat.zero_mod]
    omega

end Calls

def CallOk (cap popped : Nat) (q : List α) : Call α → Prop
  | .push _ => 2 ≤ cap ∨ cap = 1 ∧ q = []
  | .pop | .peek => 1 ≤ cap
  | .count => popped % 2 ^ 64 + q.length < 2 ^ 64

def CallsOk (cap : Nat) : Nat → List α → List (Call α) → Prop
  | _, _, [] => True
  | popped, q, call :: calls =>
    CallOk cap popped q call ∧ CallsOk cap (popped + taken q call) (step cap q call).2 calls

theorem exec_push {b : Arbuff α} {k popped : Nat} {q : List α} (h : Represents b k popped q) (a : α)
    {fuel spurious : Nat} (hf : spurious < fuel) :
    ∃ r b', exec fuel b (.push a, spurious) = .ok (r, b') ∧
      (r = (step (2 ^ k) q (.push a)).1 ↔ CallOk (2 ^ k) popped q (.push a)) ∧
      (CallOk (2 ^ k) popped q (.push a) → Represents b' k popped (step (2 ^ k) q (.push a)).2) := by
  have hfits := h.fits
  by_cases hlt : q.length < 2 ^ k
  · obtain ⟨b', he, hr⟩ := push_free h hlt a hf
    refine ⟨_, _, he, ?_, ?_⟩
    · simp only [step, if_neg (show ¬ q.length = 2 ^ k by omega), CallOk, true_iff]
      by_cases hone : 2 ≤ 2 ^ k
      · exact Or.inl hone
      · exact Or.inr ⟨by omega, List.length_eq_zero_iff.mp (by omega)⟩
    · intro _
      simpa only [step, if_neg (show ¬ q.length = 2 ^ k by omega)] using hr
  · have hlen : q.length = 2 ^ k := by omega
    cases k with
    | zero =>
        have hne : q ≠ [] := by
          intro hq
          simp [hq] at hlen
        have hno : ¬ CallOk (2 ^ 0) popped q (.push a) := by simp [CallOk, hne]
        obtain ⟨b', he⟩ := push_single h (by simpa using hlen) a hf
        exact ⟨_, _, he, by simpa [step, hlen] using hno, fun hok => absurd hok hno⟩
    | succ k =>
        have htwo : 2 ^ 1 ≤ 2 ^ (k + 1) := Nat.pow_le_pow_right (by norm_num) (by omega)
        refine ⟨_, _, push_full h hlen (by omega) a hf, ?_, ?_⟩
        · simp only [step, if_pos hlen, CallOk, true_iff]
          exact Or.inl htwo
        · intro _
          simpa only [step, if_pos hlen] using h

theorem exec_spec {b : Arbuff α} {k popped : Nat} {q : List α} (h : Represents b k popped q) (call : Call α)
    {fuel spurious : Nat} (hf : spurious < fuel) :
    ∃ r b', exec fuel b (call, spurious) = .ok (r, b') ∧
      (r = (step (2 ^ k) q call).1 ↔ CallOk (2 ^ k) popped q call) ∧
      (CallOk (2 ^ k) popped q call →
        Represents b' k (popped + taken q call) (step (2 ^ k) q call).2) := by
  cases call with
  | push a => exact exec_push h a hf
  | pop =>
      have hok : CallOk (2 ^ k) popped q .pop := Nat.two_pow_pos k
      cases q with
      | nil => exact ⟨_, _, pop_empty h hf, by simp [step, hok], fun _ => h⟩
      | cons x q =>
          obtain ⟨b', he, hr⟩ := pop_filled h hf
          refine ⟨_, _, he, by simp [step, hok], fun _ => ?_⟩
          simpa [step, taken] using hr
  | peek =>
      have hok : CallOk (2 ^ k) popped q .peek := Nat.two_pow_pos k
      exact ⟨_, _, peek_spec h fuel spurious, by simp [step, hok], fun _ => h⟩
  | count =>
      obtain ⟨n, he, hn⟩ := count_spec h fuel spurious
      exact ⟨_, _, he, by simpa only [step, Ret.size.injEq, CallOk] using hn, fun _ => h⟩

theorem run_cons_ok {fuel : Nat} {b b' : Arbuff α} {call : Call α × Nat} {r : Ret α}
    (he : exec fuel b call = .ok (r, b')) (calls : List (Call α × Nat)) (rs : List (Ret α)) :
    (∃ final, run fuel b (call :: calls) = .ok (rs, final)) ↔
      ∃ rest final, run fuel b' calls = .ok (rest, final) ∧ rs = r :: rest := by
  simp only [run, he, bind, Except.bind]
  cases run fuel b' calls with
  | error e => simp
  | ok p =>
      obtain ⟨rest, final⟩ := p
      simp [eq_comm]

theorem run_iff {k fuel : Nat} (calls : List (Call α × Nat)) (hf : ∀ c ∈ calls, c.2 < fuel) {b : Arbuff α}
    {popped : Nat} {q : List α} (h : Represents b k popped q) :
    (∃ final, run fuel b calls = .ok (results (2 ^ k) q (calls.map Prod.fst), final)) ↔
      CallsOk (2 ^ k) popped q (calls.map Prod.fst) := by
  induction calls generalizing b popped q with
  | nil => simp [run, results, CallsOk]
  | cons c calls ih =>
      obtain ⟨call, spurious⟩ := c
      obtain ⟨r, b', he, hr, hrep⟩ := exec_spec h call (hf (call, spurious) (by simp))
      have ih' := fun hok => ih (fun c hc => hf c (by simp [hc])) (hrep hok)
      rw [run_cons_ok he]
      simp only [List.map_cons, results, CallsOk, List.cons.injEq]
      constructor
      · rintro ⟨rest, final, hrun, hhead, rfl⟩
        have hok := hr.mp hhead.symm
        exact ⟨hok, (ih' hok).mp ⟨final, hrun⟩⟩
      · rintro ⟨hok, hoks⟩
        obtain ⟨final, hrun⟩ := (ih' hok).mpr hoks
        exact ⟨_, final, hrun, (hr.mpr hok).symm, rfl⟩

theorem run_zero_iff {fuel : Nat} (calls : List (Call α × Nat)) (hf : ∀ c ∈ calls, c.2 < fuel) :
    (∃ final, run fuel (⟨[], 0, 0 - 1, 0, 0⟩ : Arbuff α) calls =
      .ok (results 0 [] (calls.map Prod.fst), final)) ↔ CallsOk 0 0 ([] : List α) (calls.map Prod.fst) := by
  induction calls with
  | nil => simp [run, results, CallsOk]
  | cons c calls ih =>
      obtain ⟨call, spurious⟩ := c
      have hlt := hf (call, spurious) (by simp)
      obtain ⟨fuel, rfl⟩ : ∃ n, fuel = n + 1 := ⟨fuel - 1, by omega⟩
      cases call with
      | push a =>
          simp [run, exec, akArbuffPush, acquire, Arbuff.slotAt, bind, Except.bind, CallsOk, CallOk]
      | pop => simp [run, exec, akArbuffPop, acquire, Arbuff.slotAt, bind, Except.bind, CallsOk, CallOk]
      | peek => simp [run, exec, akArbuffPeek, Arbuff.slotAt, bind, Except.bind, CallsOk, CallOk]
      | count =>
          have he : exec (fuel + 1) (⟨[], 0, 0 - 1, 0, 0⟩ : Arbuff α) (.count, spurious) =
            .ok (.size 0, ⟨[], 0, 0 - 1, 0, 0⟩) := by simp [exec, akArbuffCount]
          have ih' := ih (fun c hc => hf c (by simp [hc]))
          rw [run_cons_ok he]
          simp only [List.map_cons, results, step, List.length_nil, List.cons.injEq, true_and, CallsOk, CallOk,
            taken, Nat.add_zero]
          rw [← ih']
          constructor
          · rintro ⟨rest, final, hrun, rfl⟩
            exact ⟨by norm_num, final, hrun⟩
          · rintro ⟨_, final, hrun⟩
            exact ⟨_, final, hrun, rfl⟩

/-- For every buffer the constructor returns and every sequence of calls by one
thread, all calls return and answer like a queue of the rounded capacity exactly
when each call is a good one. -/
theorem akArbuff_fifo_iff (alloc : Size → Bool) (c : Size) (b : Arbuff α)
    (hb : akArbuffNew α alloc c = .ok (some b)) (calls : List (Call α × Nat)) (fuel : Nat)
    (hf : ∀ call ∈ calls, call.2 < fuel) :
    (∃ final, run fuel b calls = .ok (results (nextPowerOf2 c).toNat [] (calls.map Prod.fst), final)) ↔
      CallsOk (nextPowerOf2 c).toNat 0 [] (calls.map Prod.fst) := by
  obtain ⟨hcap, ⟨k, h⟩ | rfl⟩ := akArbuffNew_ok hb
  · rw [← hcap, h.capacity]
    exact run_iff calls hf h
  · rw [← hcap]
    exact run_zero_iff calls hf

theorem akArbuff_fifo_iff_two_slots :
    ∃ final, run 2 (⟨[⟨none, 0⟩, ⟨none, 1⟩], 2, 1, 0, 0⟩ : Arbuff Nat)
      [(.push 7, 1), (.push 8, 0), (.push 9, 0), (.pop, 0)] =
      .ok (results 2 [] [.push 7, .push 8, .push 9, .pop], final) :=
  (akArbuff_fifo_iff (fun _ => true) 2 _ (by decide) [(.push 7, 1), (.push 8, 0), (.push 9, 0), (.pop, 0)] 2
    (by decide)).mpr (by simp [CallsOk, CallOk, nextPowerOf2])

theorem acquire_spins {b : Arbuff α} {index expected : Size} {slot : Slot α} (hs : b.slotAt index = .ok slot)
    (hd : 0 < diff slot.sequence expected) (fuel spurious : Nat) :
    acquire b index expected fuel spurious = .error .outOfFuel := by
  induction fuel with
  | zero => rfl
  | succ fuel ih =>
      simp only [acquire, hs, bind, Except.bind]
      rw [if_neg (by omega), if_neg (by omega), ih]

/-- A buffer of capacity one accepts a second item while it holds the first,
and the pop that follows never returns. -/
theorem akArbuff_single_slot_overflows :
    ∃ b, akArbuffNew Nat (fun _ => true) 1 = .ok (some b) ∧
      (∀ fuel, ¬ ∃ final, run fuel b [(.push 7, 0), (.push 8, 0)] =
        .ok (results (nextPowerOf2 1).toNat [] [.push 7, .push 8], final)) ∧
      ∀ fuel, run fuel b [(.push 7, 0), (.push 8, 0), (.pop, 0)] = .error .outOfFuel := by
  refine ⟨⟨[⟨none, 0⟩], 1, 0, 0, 0⟩, by decide, ?_, ?_⟩
  · rintro (_ | fuel) ⟨final, h⟩
    · cases h
    · have hrun : run (fuel + 1) (⟨[⟨none, 0⟩], 1, 0, 0, 0⟩ : Arbuff Nat) [(.push 7, 0), (.push 8, 0)] =
        .ok ([.status 0, .status 0], ⟨[⟨some 8, 2⟩], 1, 0, 2, 0⟩) := rfl
      rw [hrun] at h
      cases h
  · rintro (_ | fuel)
    · rfl
    · have hfirst : exec (fuel + 1) (⟨[⟨none, 0⟩], 1, 0, 0, 0⟩ : Arbuff Nat) (.push 7, 0) =
        .ok (.status 0, ⟨[⟨some 7, 1⟩], 1, 0, 1, 0⟩) := rfl
      have hsecond : exec (fuel + 1) (⟨[⟨some 7, 1⟩], 1, 0, 1, 0⟩ : Arbuff Nat) (.push 8, 0) =
        .ok (.status 0, ⟨[⟨some 8, 2⟩], 1, 0, 2, 0⟩) := rfl
      have hslot : (⟨[⟨some 8, 2⟩], 1, 0, 2, 0⟩ : Arbuff Nat).slotAt 0 = .ok ⟨some 8, 2⟩ := rfl
      have hpop : exec (fuel + 1) (⟨[⟨some 8, 2⟩], 1, 0, 2, 0⟩ : Arbuff Nat) (.pop, 0) = .error .outOfFuel := by
        simp only [exec, akArbuffPop, bind, Except.bind,
          acquire_spins hslot (show 0 < diff 2 (0 + 1) by decide)]
      simp only [run, hfirst, hsecond, hpop, bind, Except.bind]

end Ak24.ArbuffSequential
