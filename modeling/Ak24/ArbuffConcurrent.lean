import Ak24.ArbuffSequential
import Ak24.TicketTrace

namespace Ak24.ArbuffConcurrent

open Transition TicketRing TicketTrace ArbuffModel ArbuffSequential Words

variable {ι α : Type}

structure System (ι α : Type) where
  buffer : Arbuff α
  phase : ι → Phase Size α

/-- The next atomic operation of a thread inside `ak_arbuff_push` or
`ak_arbuff_pop`. `spurious` makes a weak compare-exchange fail. -/
def advance (b : Arbuff α) (spurious : Bool) :
    Phase Size α → Except Fault (Phase Size α × Arbuff α × List (Event Size α))
  | .idle => .ok (.idle, b, [])
  | .pushLoad x => .ok (.pushCheck x b.head, b, [])
  | .pushCheck x head => do
    let slot ← b.slotAt head
    if diff slot.sequence head = 0 then .ok (.pushSwap x head, b, [])
    else if diff slot.sequence head < 0 then .ok (.idle, b, [])
    else .ok (.pushLoad x, b, [])
  | .pushSwap x head =>
    if b.head = head ∧ spurious = false then
      .ok (.pushStore x head, { b with head := head + 1 }, [.won head x])
    else .ok (.pushLoad x, b, [])
  | .pushStore x head => do
    let slot ← b.slotAt head
    .ok (.pushPublish x head, b.setSlot head { slot with value := some x }, [.stored head x])
  | .pushPublish _ head => do
    let slot ← b.slotAt head
    .ok (.idle, b.setSlot head { slot with sequence := head + 1 }, [])
  | .popLoad => .ok (.popCheck b.tail, b, [])
  | .popCheck tail => do
    let slot ← b.slotAt tail
    if diff slot.sequence (tail + 1) = 0 then .ok (.popSwap tail, b, [])
    else if diff slot.sequence (tail + 1) < 0 then .ok (.idle, b, [])
    else .ok (.popLoad, b, [])
  | .popSwap tail =>
    if b.tail = tail ∧ spurious = false then
      .ok (.popRead tail, { b with tail := tail + 1 }, [.claimed tail])
    else .ok (.popLoad, b, [])
  | .popRead tail => do
    let slot ← b.slotAt tail
    .ok (.popRelease tail slot.value, b, [.read tail slot.value])
  | .popRelease tail item => do
    let slot ← b.slotAt tail
    .ok (.idle, b.setSlot tail { slot with sequence := tail + b.mask + 1 }, [.returned tail item])

def NoWrap (b b' : Arbuff α) : Prop := b.head ≤ b'.head ∧ b.tail ≤ b'.tail

def start (b : Arbuff α) : System ι α := ⟨b, fun _ => .idle⟩

/-- The buffer and its threads at the ring's unbounded tickets. The indices are
the tickets themselves, the sequences their residues. -/
structure Refines (k : Nat) (s : System ι α) (t : State ι α) : Prop where
  small : k ≤ 59
  capacity : s.buffer.capacity.toNat = 2 ^ k
  mask : s.buffer.mask = s.buffer.capacity - 1
  slots : ∀ n < 2 ^ k, s.buffer.slots[n]? = some ⟨t.value n, BitVec.ofNat 64 (t.sequence n)⟩
  head : s.buffer.head.toNat = t.head
  tail : s.buffer.tail.toNat = t.tail
  phase : ∀ i, t.phase i = (s.phase i).map BitVec.toNat

theorem diff_eq_zero {x y : Size} : diff x y = 0 ↔ x = y := by
  rw [diff, ← BitVec.toInt_zero (w := 64), BitVec.toInt_inj]
  exact ⟨fun h => by bv_omega, fun h => by bv_omega⟩

theorem eq_of_ofNat_eq {m n : Nat} (h : BitVec.ofNat 64 m = BitVec.ofNat 64 n) (hm : m < n + 2 ^ 63)
    (hn : n < m + 2 ^ 63) : m = n := by
  have := congrArg BitVec.toNat h
  simp only [BitVec.toNat_ofNat] at this
  omega

section Refinement

variable {k : Nat} {s : System ι α} {t : State ι α}

theorem Refines.slotAt (h : Refines k s t) (x : Size) :
    s.buffer.slotAt x =
      .ok ⟨t.value (x.toNat % 2 ^ k), BitVec.ofNat 64 (t.sequence (x.toNat % 2 ^ k))⟩ := by
  rw [Arbuff.slotAt, h.mask, and_mask_toNat h.capacity, h.slots _ (Nat.mod_lt _ (Nat.two_pow_pos k))]

theorem Refines.setSlot (h : Refines k s t) (x : Size) (slot : Slot α) (n : Nat) (hn : n < 2 ^ k) :
    (s.buffer.setSlot x slot).slots[n]? =
      if n = x.toNat % 2 ^ k then some slot else some ⟨t.value n, BitVec.ofNat 64 (t.sequence n)⟩ := by
  have hlen : x.toNat % 2 ^ k < s.buffer.slots.length := by
    have := h.slots _ (Nat.mod_lt x.toNat (Nat.two_pow_pos k))
    exact (List.getElem?_eq_some_iff.mp this).1
  rw [Arbuff.setSlot, h.mask, and_mask_toNat h.capacity]
  split_ifs with he
  · rw [he, List.getElem?_set_self hlen]
  · rw [List.getElem?_set_ne (Ne.symm he), h.slots n hn]

theorem head_check (ho : Owned (2 ^ k) t) (hk : k ≤ 59) {x : Size} (hx : x.toNat = t.head)
    (hq : BitVec.ofNat 64 (t.sequence (x.toNat % 2 ^ k)) = x) : t.sequence (x.toNat % 2 ^ k) = x.toNat := by
  obtain ⟨u, hu⟩ := ho.turn _ (Nat.mod_lt x.toNat (Nat.two_pow_pos k))
  have hbig : 2 ^ k ≤ 2 ^ 59 := Nat.pow_le_pow_right (by norm_num) hk
  have hle := ho.ordered
  have hbelow := hu.below
  have habove := hu.above
  apply eq_of_ofNat_eq
  · rw [hq, BitVec.ofNat_toNat, BitVec.setWidth_eq]
  · rcases hu.sequence_eq with he | he <;> omega
  · rcases hu.sequence_eq with he | he <;> omega

theorem tail_check (ho : Owned (2 ^ k) t) (hk : k ≤ 59) {x : Size} (hx : x.toNat = t.tail)
    (hq : BitVec.ofNat 64 (t.sequence (x.toNat % 2 ^ k)) = x + 1) :
    t.sequence (x.toNat % 2 ^ k) = x.toNat + 1 := by
  obtain ⟨u, hu⟩ := ho.turn _ (Nat.mod_lt x.toNat (Nat.two_pow_pos k))
  have hbig : 2 ^ k ≤ 2 ^ 59 := Nat.pow_le_pow_right (by norm_num) hk
  have hle := ho.ordered
  have hbelow := hu.below
  have habove := hu.above
  apply eq_of_ofNat_eq
  · rw [hq, BitVec.ofNat_add, BitVec.ofNat_toNat, BitVec.setWidth_eq]
    rfl
  · rcases hu.sequence_eq with he | he <;> omega
  · rcases hu.sequence_eq with he | he <;> omega

theorem Refines.write (h : Refines k s t) (x : Size) (v : Option α) (q : Nat) :
    Refines k ⟨s.buffer.setSlot x ⟨v, BitVec.ofNat 64 q⟩, s.phase⟩
      { t with
        value := Function.update t.value (x.toNat % 2 ^ k) v
        sequence := Function.update t.sequence (x.toNat % 2 ^ k) q } := by
  refine ⟨h.small, h.capacity, h.mask, ?_, h.head, h.tail, h.phase⟩
  intro n hn
  rw [h.setSlot x _ n hn]
  split_ifs with he
  · simp only [he, Function.update_self]
  · simp only [Function.update_of_ne he]

theorem Refines.storeValue (h : Refines k s t) (x : Size) (v : Option α) :
    Refines k ⟨s.buffer.setSlot x ⟨v, BitVec.ofNat 64 (t.sequence (x.toNat % 2 ^ k))⟩, s.phase⟩
      { t with value := Function.update t.value (x.toNat % 2 ^ k) v } := by
  simpa only [Function.update_eq_self] using h.write x v (t.sequence (x.toNat % 2 ^ k))

theorem Refines.storeSequence (h : Refines k s t) (x y : Size) (q : Nat) (hy : y = BitVec.ofNat 64 q) :
    Refines k ⟨s.buffer.setSlot x ⟨t.value (x.toNat % 2 ^ k), y⟩, s.phase⟩
      { t with sequence := Function.update t.sequence (x.toNat % 2 ^ k) q } := by
  subst hy
  simpa only [Function.update_eq_self] using h.write x (t.value (x.toNat % 2 ^ k)) q

theorem toNat_add_one {x : Size} (h : x ≤ x + 1) : (x + 1).toNat = x.toNat + 1 := by
  bv_omega

theorem ofNat_toNat_add_one (x : Size) : x + 1 = BitVec.ofNat 64 (x.toNat + 1) := by
  rw [BitVec.ofNat_add, BitVec.ofNat_toNat, BitVec.setWidth_eq]
  rfl

theorem Refines.next_lap (h : Refines k s t) (x : Size) :
    x + s.buffer.mask + 1 = BitVec.ofNat 64 (x.toNat + 2 ^ k) := by
  rw [h.mask, BitVec.add_assoc, BitVec.sub_add_cancel, BitVec.ofNat_add, ← h.capacity, BitVec.ofNat_toNat,
    BitVec.ofNat_toNat, BitVec.setWidth_eq, BitVec.setWidth_eq]

theorem refines_start {b : Arbuff α} (h : Represents b k 0 []) :
    Refines k (start b) (initial ι fun n => (b.slots[n]?).bind Slot.value) := by
  refine ⟨h.small, h.capacity, h.mask, ?_, ?_, ?_, fun _ => rfl⟩
  · intro n hn
    obtain ⟨v, hv⟩ := h.free n (by simp) hn
    rw [Nat.zero_add, Nat.mod_eq_of_lt hn] at hv
    simp [start, initial, hv]
  · rw [start, h.head]
    rfl
  · rw [start, h.tail]
    rfl

theorem Refines.advance_ok (h : Refines k s t) (spurious : Bool) (p : Phase Size α) :
    ∃ r, advance s.buffer spurious p = .ok r := by
  cases p with
  | idle | pushLoad | popLoad => exact ⟨_, rfl⟩
  | pushSwap | popSwap =>
      simp only [advance]
      split_ifs <;> exact ⟨_, rfl⟩
  | pushStore | pushPublish | popRead | popRelease =>
      simp only [advance, h.slotAt, bind, Except.bind]
      exact ⟨_, rfl⟩
  | pushCheck | popCheck =>
      simp only [advance, h.slotAt, bind, Except.bind]
      split_ifs <;> exact ⟨_, rfl⟩

end Refinement

variable [DecidableEq ι]

inductive Next : System ι α → List (Event Size α) → System ι α → Prop
  | push (s : System ι α) (i : ι) (x : α) (hp : s.phase i = .idle) :
    Next s [] ⟨s.buffer, Function.update s.phase i (.pushLoad x)⟩
  | pop (s : System ι α) (i : ι) (hp : s.phase i = .idle) :
    Next s [] ⟨s.buffer, Function.update s.phase i .popLoad⟩
  | atomic (s : System ι α) (i : ι) (spurious : Bool) (p : Phase Size α) (b : Arbuff α)
    (events : List (Event Size α)) (ha : advance s.buffer spurious (s.phase i) = .ok (p, b, events))
    (hw : NoWrap s.buffer b) : Next s events ⟨b, Function.update s.phase i p⟩

section Simulation

variable {k : Nat} {s : System ι α} {t : State ι α} {i : ι}

theorem Refines.goto (h : Refines k s t) (i : ι) (p : Phase Size α) :
    Refines k ⟨s.buffer, Function.update s.phase i p⟩ (t.goto i (p.map BitVec.toNat)) := by
  refine ⟨h.small, h.capacity, h.mask, h.slots, h.head, h.tail, ?_⟩
  intro j
  by_cases hj : j = i
  · subst hj
    simp [State.goto]
  · simp [State.goto, hj, h.phase]

theorem Refines.move (h : Refines k s t) {p q : Phase Size α} (hp : s.phase i = p)
    (hm : Move (2 ^ k) t (p.map BitVec.toNat) (q.map BitVec.toNat)) :
    ∃ t', Step (2 ^ k) t [] t' ∧ Refines k ⟨s.buffer, Function.update s.phase i q⟩ t' := by
  subst hp
  rw [← h.phase i] at hm
  exact ⟨_, .move t i _ hm, h.goto i q⟩

theorem advance_simulates (h : Refines k s t) (ho : Owned (2 ^ k) t) {spurious : Bool} {p : Phase Size α}
    {b : Arbuff α} {events : List (Event Size α)}
    (ha : advance s.buffer spurious (s.phase i) = .ok (p, b, events)) (hw : NoWrap s.buffer b) :
    ∃ t', Step (2 ^ k) t (events.map (Event.map BitVec.toNat)) t' ∧
      Refines k ⟨b, Function.update s.phase i p⟩ t' := by
  have hphase := h.phase i
  have hheld := ho.held i
  cases hp : s.phase i with
  | idle =>
      rw [hp] at ha
      cases ha
      exact h.move hp .rest
  | pushLoad x =>
      rw [hp] at ha
      cases ha
      refine h.move hp ?_
      have hload : Move (2 ^ k) t (.pushLoad x) (.pushCheck x t.head) := .loadHead x
      rwa [← h.head] at hload
  | pushCheck x head =>
      rw [hp] at ha hphase
      rw [hphase] at hheld
      simp only [advance, h.slotAt, bind, Except.bind] at ha
      split_ifs at ha with hz hneg <;> cases ha
      · refine h.move hp (.passPush x head.toNat fun he => ?_)
        exact head_check ho h.small he (diff_eq_zero.mp hz)
      · exact h.move hp (.refusePush x head.toNat)
      · exact h.move hp (.againPush x head.toNat)
  | pushSwap x head =>
      rw [hp] at ha hphase
      simp only [advance] at ha
      split_ifs at ha with hc <;> cases ha
      · obtain ⟨rfl, -⟩ := hc
        rw [Phase.map, h.head] at hphase
        refine ⟨_, by simpa only [List.map_cons, List.map_nil, Event.map, h.head] using Step.win t i x hphase, ?_⟩
        have hg := h.goto i (.pushStore x s.buffer.head)
        rw [Phase.map, h.head] at hg
        exact ⟨hg.small, hg.capacity, hg.mask, hg.slots, by rw [toNat_add_one hw.1, h.head]; rfl, hg.tail, hg.phase⟩
      · exact h.move hp (.retryPush x head.toNat)
  | pushStore x head =>
      rw [hp] at ha hphase
      simp only [advance, h.slotAt, bind, Except.bind] at ha
      cases ha
      exact ⟨_, .store t i x head.toNat hphase, (h.storeValue head (some x)).goto i (.pushPublish x head)⟩
  | pushPublish x head =>
      rw [hp] at ha hphase
      simp only [advance, h.slotAt, bind, Except.bind] at ha
      cases ha
      exact ⟨_, .publish t i x head.toNat hphase,
        (h.storeSequence head _ _ (ofNat_toNat_add_one head)).goto i .idle⟩
  | popLoad =>
      rw [hp] at ha
      cases ha
      refine h.move hp ?_
      have hload : Move (2 ^ k) t .popLoad (.popCheck t.tail) := .loadTail
      rwa [← h.tail] at hload
  | popCheck tail =>
      rw [hp] at ha hphase
      simp only [advance, h.slotAt, bind, Except.bind] at ha
      split_ifs at ha with hz hneg <;> cases ha
      · refine h.move hp (.passPop tail.toNat fun he => ?_)
        exact tail_check ho h.small he (diff_eq_zero.mp hz)
      · exact h.move hp (.refusePop tail.toNat)
      · exact h.move hp (.againPop tail.toNat)
  | popSwap tail =>
      rw [hp] at ha hphase
      simp only [advance] at ha
      split_ifs at ha with hc <;> cases ha
      · obtain ⟨rfl, -⟩ := hc
        rw [Phase.map, h.tail] at hphase
        refine ⟨_, by simpa only [List.map_cons, List.map_nil, Event.map, h.tail] using Step.claim t i hphase, ?_⟩
        have hg := h.goto i (.popRead s.buffer.tail)
        rw [Phase.map, h.tail] at hg
        exact ⟨hg.small, hg.capacity, hg.mask, hg.slots, hg.head, by rw [toNat_add_one hw.2, h.tail]; rfl, hg.phase⟩
      · exact h.move hp (.retryPop tail.toNat)
  | popRead tail =>
      rw [hp] at ha hphase
      simp only [advance, h.slotAt, bind, Except.bind] at ha
      cases ha
      exact ⟨_, .read t i tail.toNat hphase, h.goto i _⟩
  | popRelease tail item =>
      rw [hp] at ha hphase
      simp only [advance, h.slotAt, bind, Except.bind] at ha
      cases ha
      exact ⟨_, .release t i tail.toNat item hphase, (h.storeSequence tail _ _ (h.next_lap tail)).goto i .idle⟩

theorem next_simulates (h : Refines k s t) (ho : Owned (2 ^ k) t) {events : List (Event Size α)}
    {s' : System ι α} (hn : Next s events s') :
    ∃ t', Step (2 ^ k) t (events.map (Event.map BitVec.toNat)) t' ∧ Refines k s' t' := by
  cases hn with
  | push i x hp => exact h.move hp (.startPush x)
  | pop i hp => exact h.move hp .startPop
  | atomic i spurious p b _ ha hw => exact advance_simulates h ho ha hw

end Simulation

theorem mem_map_event {trace : List (Event Size α)} {e : Event Size α} :
    e.map BitVec.toNat ∈ trace.map (Event.map BitVec.toNat) ↔ e ∈ trace := by
  refine List.mem_map_of_injective ?_
  intro e e' h
  cases e <;> cases e' <;> simp_all [Event.map, BitVec.toNat_inj]

theorem nodup_tickets {trace : List (Event Size α)} {f : Event Size α → Option Size}
    {g : Event Nat α → Option Nat} (hfg : ∀ e, g (e.map BitVec.toNat) = (f e).map BitVec.toNat)
    (h : ((trace.map (Event.map BitVec.toNat)).filterMap g).Nodup) : (trace.filterMap f).Nodup := by
  refine List.Nodup.of_map BitVec.toNat ?_
  rw [List.filterMap_map] at h
  rw [List.map_filterMap]
  rwa [List.filterMap_congr fun e _ => (hfg e).symm]

section Reached

variable {b : Arbuff α} {k : Nat} {trace : List (Event Size α)} {s : System ι α}

theorem refined_of_run (hb : Represents b k 0 []) (hk : 2 ≤ 2 ^ k) (h : Run Next (start b) trace s) :
    ∃ t, Run (Step (2 ^ k)) (initial ι fun n => (b.slots[n]?).bind Slot.value)
      (trace.map (Event.map BitVec.toNat)) t ∧ Refines k s t :=
  h.simulate (refines_start hb) fun _ _ _ _ _ hrun hr hn => next_simulates hr (recorded_of_run hk hrun).1 hn

theorem indices_of_run (hb : Represents b k 0 []) (hk : 2 ≤ 2 ^ k) (h : Run Next (start b) trace s) :
    s.buffer.capacity.toNat = 2 ^ k ∧ s.buffer.tail.toNat ≤ s.buffer.head.toNat ∧
      s.buffer.head.toNat ≤ s.buffer.tail.toNat + 2 ^ k := by
  obtain ⟨t, ht, href⟩ := refined_of_run hb hk h
  have ho := (recorded_of_run hk ht).1
  rw [href.tail, href.head]
  exact ⟨href.capacity, ho.ordered, ho.head_le hk⟩

end Reached

/-- For every buffer of at least two slots, any threads and any interleaving of
their atomic steps in which no index wraps: a ticket is won by one push and
returned by one pop, the pop with ticket `i` returns the item that the push with
ticket `i` stored, an item that is stored and not yet read is in its slot, the
indices stay within a capacity of each other, and no operation leaves the slots. -/
theorem akArbuff_concurrent_safe (alloc : Size → Bool) (c : Size) (b : Arbuff α)
    (hb : akArbuffNew α alloc c = .ok (some b)) (hc : 2 ≤ (nextPowerOf2 c).toNat)
    (trace : List (Event Size α)) (s : System ι α) (h : Run Next (start b) trace s) :
    (∀ i v, .returned i v ∈ trace →
      ∃ x, v = some x ∧ .stored i x ∈ trace ∧ ∀ y, .won i y ∈ trace ↔ y = x) ∧
    (trace.filterMap Event.wonTicket).Nodup ∧ (trace.filterMap Event.returnedTicket).Nodup ∧
    (∀ i x, .stored i x ∈ trace → (∀ v, .read i v ∉ trace) →
      ∃ slot, s.buffer.slotAt i = .ok slot ∧ slot.value = some x) ∧
    s.buffer.tail.toNat ≤ s.buffer.head.toNat ∧
    s.buffer.head.toNat - s.buffer.tail.toNat ≤ (nextPowerOf2 c).toNat ∧
    ∀ i spurious, ∃ r, advance s.buffer spurious (s.phase i) = .ok r := by
  obtain ⟨hcap, ⟨k, hrep⟩ | rfl⟩ := akArbuffNew_ok hb
  swap
  · rw [← hcap] at hc
    simp at hc
  rw [← hcap, hrep.capacity] at hc ⊢
  obtain ⟨-, hordered, hfits⟩ := indices_of_run hrep hc h
  obtain ⟨t, ht, href⟩ := refined_of_run hrep hc h
  obtain ⟨-, hrec⟩ := recorded_of_run hc ht
  have hmem : ∀ e : Event Size α, e.map BitVec.toNat ∈ trace.map (Event.map BitVec.toNat) ↔ e ∈ trace :=
    fun e => mem_map_event
  refine ⟨?_, ?_, ?_, ?_, ?_, ?_, ?_⟩
  · intro i v hv
    obtain ⟨x, hx, hst⟩ := hrec.returned_stored i.toNat v ((hmem (.returned i v)).mpr hv)
    have hwon := hrec.stored_won i.toNat x hst
    refine ⟨x, hx, (hmem (.stored i x)).mp hst, fun y => ⟨fun hy => ?_, fun hy => ?_⟩⟩
    · exact hrec.won_unique i.toNat y x ((hmem (.won i y)).mpr hy) hwon
    · subst hy
      exact (hmem (.won i y)).mp hwon
  · exact nodup_tickets (fun e => by cases e <;> rfl) hrec.won_once
  · exact nodup_tickets (fun e => by cases e <;> rfl) hrec.returned_once
  · intro i x hst hread
    refine ⟨_, href.slotAt i, hrec.value_of_stored ((hmem (.stored i x)).mpr hst) fun v hv => ?_⟩
    exact hread v ((hmem (.read i v)).mp hv)
  · exact hordered
  · omega
  · exact fun i spurious => href.advance_ok spurious (s.phase i)

theorem akArbuff_concurrent_safe_two_threads :
    ∃ s : System Bool Nat, Run Next (start ⟨[⟨none, 0⟩, ⟨none, 1⟩], 2, 1, 0, 0⟩)
      [.won 0 7, .stored 0 7, .claimed 0, .read 0 (some 7), .returned 0 (some 7)] s ∧
      s.buffer.head.toNat - s.buffer.tail.toNat ≤ 2 := by
  have load : Run Next (start ⟨[⟨none, 0⟩, ⟨none, 1⟩], 2, 1, 0, 0⟩ : System Bool Nat) _ _ :=
    ((Run.start.next (.push _ false 7 rfl)).next (.pop _ true rfl)).next
      (.atomic _ false false _ _ _ rfl ⟨by decide, by decide⟩)
  have won := (load.next (.atomic _ false false _ _ _ rfl ⟨by decide, by decide⟩)).next
    (.atomic _ false false _ _ _ rfl ⟨by decide, by decide⟩)
  have pushed := (won.next (.atomic _ false false _ _ _ rfl ⟨by decide, by decide⟩)).next
    (.atomic _ false false _ _ _ rfl ⟨by decide, by decide⟩)
  have claimed := ((pushed.next (.atomic _ true false _ _ _ rfl ⟨by decide, by decide⟩)).next
    (.atomic _ true false _ _ _ rfl ⟨by decide, by decide⟩)).next
    (.atomic _ true false _ _ _ rfl ⟨by decide, by decide⟩)
  have popped := (claimed.next (.atomic _ true false _ _ _ rfl ⟨by decide, by decide⟩)).next
    (.atomic _ true false _ _ _ rfl ⟨by decide, by decide⟩)
  exact ⟨_, popped, (akArbuff_concurrent_safe (fun _ => true) 2 _ (by decide) (by decide) _ _ popped).2.2.2.2.2.1⟩

end Ak24.ArbuffConcurrent
