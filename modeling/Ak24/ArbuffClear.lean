import Ak24.ArbuffSequential
import Ak24.Transition

namespace Ak24.ArbuffClear

open BoundedQueue ArbuffModel ArbuffSequential Transition Words

variable {α : Type}

inductive Operation (α : Type)
  | push (item : α)
  | pop
  | clear
  deriving DecidableEq, Repr

/-- A call of the one thread that uses the buffer. It comes to its end within some fuel. -/
inductive Step (b : Arbuff α) : List (Operation α) → Arbuff α → Prop
  | push (item : α) (fuel spurious : Nat) (code : Int) (b' : Arbuff α)
    (h : akArbuffPush fuel spurious b item = .ok (code, b')) : Step b [.push item] b'
  | pop (fuel spurious : Nat) (item : Option α) (b' : Arbuff α) (h : akArbuffPop fuel spurious b = .ok (item, b')) :
    Step b [.pop] b'
  | clear (b' : Arbuff α) (h : akArbuffClear b = .ok b') : Step b [.clear] b'

structure Shaped (k : Nat) (b : Arbuff α) : Prop where
  small : k ≤ 59
  capacity : b.capacity.toNat = 2 ^ k
  mask : b.mask = b.capacity - 1
  slots : b.slots.length = 2 ^ k

section Slots

variable {b b' : Arbuff α} {k : Nat} {left : Nat}

theorem clearSlots_spec (head : Size) (i : Nat) (slots : List (Slot α)) (h : i + left = slots.length) :
    ∃ slots', clearSlots head left i slots = .ok slots' ∧ slots'.length = slots.length ∧
      (∀ j < i, slots'[j]? = slots[j]?) ∧
      ∀ j, i ≤ j → j < slots.length → slots'[j]? = some ⟨none, head + BitVec.ofNat 64 j⟩ := by
  induction left generalizing i slots with
  | zero => exact ⟨slots, rfl, rfl, fun _ _ => rfl, fun j hij hj => by omega⟩
  | succ left ih =>
      obtain ⟨slots', hclear, hlength, hbefore, hafter⟩ :=
        ih (i + 1) (slots.set i ⟨none, head + BitVec.ofNat 64 i⟩) (by rw [List.length_set]; omega)
      rw [List.length_set] at hlength hafter
      refine ⟨slots', by rw [clearSlots, if_pos (by omega), hclear], hlength, ?_, ?_⟩
      · intro j hj
        rw [hbefore j (by omega), List.getElem?_set_ne (by omega)]
      · intro j hij hj
        by_cases he : j = i
        · subst j
          rw [hbefore i (by omega), List.getElem?_set_self hj]
        · exact hafter j (by omega) hj

theorem akArbuffClear_spec (h : Shaped k b) :
    ∃ b', akArbuffClear b = .ok b' ∧ Shaped k b' ∧ b'.capacity = b.capacity ∧ b'.head = b.head ∧ b'.tail = b.head ∧
      ∀ j < 2 ^ k, b'.slots[j]? = some ⟨none, b.head + BitVec.ofNat 64 j⟩ := by
  obtain ⟨slots, hclear, hlength, -, hslots⟩ :=
    clearSlots_spec b.head 0 b.slots (show 0 + b.capacity.toNat = _ by rw [h.capacity, h.slots, Nat.zero_add])
  refine ⟨{ b with slots, tail := b.head }, ?_, ⟨h.small, h.capacity, h.mask, hlength.trans h.slots⟩, rfl, rfl, rfl, ?_⟩
  · simp only [akArbuffClear, hclear, bind, Except.bind]
  · intro j hj
    exact hslots j (Nat.zero_le j) (by rwa [h.slots])

theorem Shaped.setSlot (h : Shaped k b) (head tail ticket : Size) (slot : Slot α) :
    Shaped k ({ b with head, tail }.setSlot ticket slot) :=
  ⟨h.small, h.capacity, h.mask, by rw [Arbuff.setSlot, List.length_set, h.slots]⟩

theorem Shaped.push (h : Shaped k b) {fuel spurious : Nat} {item : α} {code : Int}
    (hpush : akArbuffPush fuel spurious b item = .ok (code, b')) : Shaped k b' ∧ b'.capacity = b.capacity := by
  unfold akArbuffPush at hpush
  cases hacquire : acquire b b.head b.head fuel spurious with
  | error e =>
      simp only [hacquire, bind, Except.bind] at hpush
      cases hpush
  | ok ticket =>
      cases ticket with
      | none =>
          simp only [hacquire, bind, Except.bind, Except.ok.injEq, Prod.mk.injEq] at hpush
          obtain ⟨-, rfl⟩ := hpush
          exact ⟨h, rfl⟩
      | some head =>
          simp only [hacquire, bind, Except.bind] at hpush
          split at hpush
          · cases hpush
          · cases hpush
            exact ⟨h.setSlot _ _ _ _, rfl⟩

theorem Shaped.pop (h : Shaped k b) {fuel spurious : Nat} {item : Option α}
    (hpop : akArbuffPop fuel spurious b = .ok (item, b')) : Shaped k b' ∧ b'.capacity = b.capacity := by
  unfold akArbuffPop at hpop
  cases hacquire : acquire b b.tail (b.tail + 1) fuel spurious with
  | error e =>
      simp only [hacquire, bind, Except.bind] at hpop
      cases hpop
  | ok ticket =>
      cases ticket with
      | none =>
          simp only [hacquire, bind, Except.bind, Except.ok.injEq, Prod.mk.injEq] at hpop
          obtain ⟨-, rfl⟩ := hpop
          exact ⟨h, rfl⟩
      | some tail =>
          simp only [hacquire, bind, Except.bind] at hpop
          split at hpop
          · cases hpop
          · cases hpop
            exact ⟨h.setSlot _ _ _ _, rfl⟩

theorem Shaped.step (h : Shaped k b) {operations : List (Operation α)} (hs : Step b operations b') :
    Shaped k b' ∧ b'.capacity = b.capacity := by
  cases hs with
  | push item fuel spurious code _ hpush => exact h.push hpush
  | pop fuel spurious item _ hpop => exact h.pop hpop
  | clear _ hclear =>
      obtain ⟨_, hcleared, hshaped, hcapacity, -⟩ := akArbuffClear_spec h
      rw [hclear] at hcleared
      cases hcleared
      exact ⟨hshaped, hcapacity⟩

end Slots

/-- The buffer answers every sequence of calls as an empty queue, unless a count is
asked for while only one of the indices has passed the end of the word. -/
def AnswersEmpty (capacity popped : Nat) (b : Arbuff α) : Prop :=
  ∀ (calls : List (Call α × Nat)) (fuel : Nat), (∀ call ∈ calls, call.2 < fuel) →
    CallsOk capacity popped [] (calls.map Prod.fst) →
    ∃ final, run fuel b calls = .ok (results capacity [] (calls.map Prod.fst), final)

section Cleared

variable {b b' : Arbuff α} {k : Nat}

theorem represents_cleared (h : Shaped k b') (hhead : b'.tail = b'.head)
    (hslots : ∀ j < 2 ^ k, b'.slots[j]? = some ⟨none, b'.head + BitVec.ofNat 64 j⟩)
    (haligned : b'.head.toNat % 2 ^ k = 0) : Represents b' k b'.head.toNat [] where
  small := h.small
  capacity := h.capacity
  mask := h.mask
  slots := h.slots
  fits := Nat.zero_le _
  head := by rw [List.length_nil, Nat.add_zero, BitVec.ofNat_toNat, BitVec.setWidth_eq]
  tail := by rw [hhead, BitVec.ofNat_toNat, BitVec.setWidth_eq]
  filled := nofun
  free := by
    intro j _ hj
    refine ⟨none, ?_⟩
    rw [Nat.add_mod, haligned, Nat.zero_add, Nat.mod_mod, Nat.mod_eq_of_lt hj, hslots j hj, BitVec.ofNat_add,
      BitVec.ofNat_toNat, BitVec.setWidth_eq]

/-- At any other head a push finds its slot a part of a lap ahead, and tries for ever. -/
theorem push_spins (h : Shaped k b')
    (hslots : ∀ j < 2 ^ k, b'.slots[j]? = some ⟨none, b'.head + BitVec.ofNat 64 j⟩)
    (hmisaligned : b'.head.toNat % 2 ^ k ≠ 0) (item : α) (fuel spurious : Nat) :
    exec fuel b' (.push item, spurious) = .error .outOfFuel := by
  have hk := h.small
  have hlt : b'.head.toNat % 2 ^ k < 2 ^ k := Nat.mod_lt _ (Nat.two_pow_pos k)
  have hbig : 2 ^ k ≤ 2 ^ 59 := Nat.pow_le_pow_right (by norm_num) hk
  have hslot : b'.slotAt b'.head = .ok ⟨none, b'.head + BitVec.ofNat 64 (b'.head.toNat % 2 ^ k)⟩ := by
    rw [Arbuff.slotAt, h.mask, and_mask_toNat h.capacity, hslots _ hlt]
  have hahead : 0 < diff (b'.head + BitVec.ofNat 64 (b'.head.toNat % 2 ^ k)) b'.head := by
    have hdiff : b'.head + BitVec.ofNat 64 (b'.head.toNat % 2 ^ k) - b'.head =
        BitVec.ofNat 64 (b'.head.toNat % 2 ^ k) - BitVec.ofNat 64 0 := by bv_omega
    rw [diff, hdiff, toInt_ofNat_sub (d := (b'.head.toNat % 2 ^ k : Nat)) (by simp) (by omega) (by omega)]
    omega
  simp only [exec, akArbuffPush, acquire_spins hslot hahead, bind, Except.bind]

end Cleared

/-- In every state that one thread can reach, clearing makes an empty queue of the
buffer exactly when the head is a multiple of the capacity. A following sequence of
calls is then answered as it is by a new buffer. -/
theorem cleared_answers_iff [Nonempty α] (alloc : Size → Bool) (c : Size) (b₀ b : Arbuff α)
    (hb : akArbuffNew α alloc c = .ok (some b₀)) (hc : 2 ≤ (nextPowerOf2 c).toNat) (trace : List (Operation α))
    (hrun : Run Step b₀ trace b) :
    ∃ b', akArbuffClear b = .ok b' ∧
      (AnswersEmpty (nextPowerOf2 c).toNat b.head.toNat b' ↔ b.head.toNat % (nextPowerOf2 c).toNat = 0) ∧
      (b.head.toNat % (nextPowerOf2 c).toNat = 0 →
        ∀ (calls : List (Call α × Nat)) (fuel : Nat), (∀ call ∈ calls, call.2 < fuel) →
          ((∃ final, run fuel b' calls = .ok (results (nextPowerOf2 c).toNat [] (calls.map Prod.fst), final)) ↔
            CallsOk (nextPowerOf2 c).toNat b.head.toNat [] (calls.map Prod.fst))) := by
  obtain ⟨hcap, ⟨k, h₀⟩ | rfl⟩ := akArbuffNew_ok hb
  swap
  · rw [← hcap] at hc
    simp at hc
  have hinv : Shaped k b ∧ b.capacity = b₀.capacity := by
    apply hrun.invariant (P := fun _ b => Shaped k b ∧ b.capacity = b₀.capacity)
    · exact ⟨⟨h₀.small, h₀.capacity, h₀.mask, h₀.slots⟩, rfl⟩
    · rintro _ b _ b' ⟨hshaped, hcapacity⟩ hs
      obtain ⟨hshaped', hsame⟩ := hshaped.step hs
      exact ⟨hshaped', hsame.trans hcapacity⟩
  obtain ⟨b', hclear, hshaped, -, hhead, htail, hslots⟩ := akArbuffClear_spec hinv.1
  rw [← hhead] at hslots htail
  rw [← hcap, h₀.capacity] at hc ⊢
  rw [← hhead]
  have hanswers (haligned : b'.head.toNat % 2 ^ k = 0) (calls : List (Call α × Nat)) (fuel : Nat)
      (hfuel : ∀ call ∈ calls, call.2 < fuel) :=
    run_iff calls hfuel (represents_cleared hshaped htail hslots haligned)
  refine ⟨b', hclear, ⟨?_, ?_⟩, hanswers⟩
  · intro hempty
    by_contra hmisaligned
    obtain ⟨item⟩ := ‹Nonempty α›
    obtain ⟨final, hfinal⟩ := hempty [(.push item, 0)] 1 (by simp) ⟨.inl hc, trivial⟩
    simp only [run, push_spins hshaped hslots hmisaligned, bind, Except.bind] at hfinal
    cases hfinal
  · intro haligned calls fuel hfuel hcalls
    exact (hanswers haligned calls fuel hfuel).mpr hcalls

def twoSlots : Arbuff Nat := ⟨[⟨none, 0⟩, ⟨none, 1⟩], 2, 1, 0, 0⟩

theorem twoSlots_new : akArbuffNew Nat (fun _ => true) 2 = .ok (some twoSlots) := by decide

/-- With two items pushed, the buffer is cleared at the end of a lap. -/
theorem cleared_after_a_lap : ∃ trace b b', Run Step twoSlots trace b ∧ b.head = 2 ∧ akArbuffClear b = .ok b' ∧
    AnswersEmpty 2 2 b' := by
  have r₁ : Run Step twoSlots _ _ := .next .start (.push 7 1 0 _ _ rfl)
  have r₂ := r₁.next (.push 8 1 0 _ _ rfl)
  obtain ⟨b', hclear, hempty, -⟩ :=
    cleared_answers_iff (fun _ => true) 2 twoSlots _ twoSlots_new (by decide) _ r₂
  exact ⟨_, _, b', r₂, rfl, hclear, hempty.mpr (by decide)⟩

/-- With one item pushed, the push that follows the clearing does not return. -/
theorem cleared_within_a_lap : ∃ trace b b', akArbuffNew Nat (fun _ => true) 2 = .ok (some twoSlots) ∧
    Run Step twoSlots trace b ∧ akArbuffClear b = .ok b' ∧ ¬AnswersEmpty 2 b.head.toNat b' ∧
    ∀ fuel, run fuel b' [(.push 8, 0)] = .error .outOfFuel := by
  have r₁ : Run Step twoSlots _ _ := .next .start (.push 7 1 0 _ _ rfl)
  have hslot : (⟨[⟨none, 1⟩, ⟨none, 2⟩], 2, 1, 1, 1⟩ : Arbuff Nat).slotAt 1 = .ok ⟨none, 2⟩ := rfl
  have hspins (fuel : Nat) :
      run fuel (⟨[⟨none, 1⟩, ⟨none, 2⟩], 2, 1, 1, 1⟩ : Arbuff Nat) [(.push 8, 0)] = .error .outOfFuel := by
    simp only [run, exec, akArbuffPush, acquire_spins hslot (show 0 < diff 2 1 by decide), bind, Except.bind]
  refine ⟨_, _, ⟨[⟨none, 1⟩, ⟨none, 2⟩], 2, 1, 1, 1⟩, twoSlots_new, r₁, rfl, ?_, hspins⟩
  intro hempty
  obtain ⟨final, hfinal⟩ := hempty [(.push 8, 0)] 1 (by simp) ⟨.inl le_rfl, trivial⟩
  rw [hspins] at hfinal
  cases hfinal

end Ak24.ArbuffClear
