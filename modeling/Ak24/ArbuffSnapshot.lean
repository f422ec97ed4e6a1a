import Ak24.ArbuffConcurrent

namespace Ak24.ArbuffSnapshot

open Transition TicketRing ArbuffModel ArbuffSequential ArbuffConcurrent

variable {ι α : Type}

inductive Query
  | count
  | isEmpty
  | isFull
  deriving DecidableEq, Repr

def Query.answer (b : Arbuff α) : Query → Int
  | .count => (akArbuffCount b).toNat
  | .isEmpty => akArbuffIsEmpty b
  | .isFull => akArbuffIsFull b

def Query.truth (capacity head tail : Nat) : Query → Int
  | .count => head - tail
  | .isEmpty => if head = tail then 1 else 0
  | .isFull => if head = tail + capacity then 1 else 0

structure Instant where
  head : Size
  tail : Size
  deriving DecidableEq, Repr

def instant (b : Arbuff α) : Instant := ⟨b.head, b.tail⟩

inductive Asking
  | idle
  | started (query : Query) (instants : List Instant)
  | loaded (query : Query) (head : Size) (instants : List Instant)
  deriving DecidableEq, Repr

def Asking.note (now : Instant) : Asking → Asking
  | .idle => .idle
  | .started query instants => .started query (now :: instants)
  | .loaded query head instants => .loaded query head (now :: instants)

structure Observed (ι α : Type) where
  system : System ι α
  asking : Asking

inductive Happening (α : Type)
  | ring (event : Event Size α)
  | answered (query : Query) (value : Int) (instants : List Instant)

variable [DecidableEq ι]

/-- The threads push and pop while one thread asks: it loads the head, then the tail. -/
inductive Step : Observed ι α → List (Happening α) → Observed ι α → Prop
  | others (s : Observed ι α) (events : List (Event Size α)) (system : System ι α)
    (h : Next s.system events system) :
    Step s (events.map .ring) ⟨system, s.asking.note (instant system.buffer)⟩
  | ask (s : Observed ι α) (query : Query) (h : s.asking = .idle) :
    Step s [] ⟨s.system, .started query [instant s.system.buffer]⟩
  | loadHead (s : Observed ι α) (query : Query) (instants : List Instant) (h : s.asking = .started query instants) :
    Step s [] ⟨s.system, .loaded query s.system.buffer.head instants⟩
  | loadTail (s : Observed ι α) (query : Query) (head : Size) (instants : List Instant)
    (h : s.asking = .loaded query head instants) :
    Step s [.answered query (query.answer { s.system.buffer with head }) instants] ⟨s.system, .idle⟩

/-- No pop takes a ticket between the two loads once a push has taken one there. -/
def Orderly (s : Observed ι α) (happenings : List (Happening α)) : Prop :=
  ∀ ticket, .ring (.claimed ticket) ∈ happenings →
    ∀ query head instants, s.asking = .loaded query head instants → s.system.buffer.head = head

def TrueSnapshot (capacity : Nat) : Happening α → Prop
  | .ring _ => True
  | .answered query value instants => ∃ i ∈ instants, value = query.truth capacity i.head.toNat i.tail.toNat

instance (capacity : Nat) (happening : Happening α) : Decidable (TrueSnapshot capacity happening) :=
  match happening with
  | .ring _ => isTrue trivial
  | .answered query value instants =>
    inferInstanceAs (Decidable (∃ i ∈ instants, value = query.truth capacity i.head.toNat i.tail.toNat))

section Indices

variable {b b' : Arbuff α} {p p' : Phase Size α} {spurious : Bool} {events : List (Event Size α)} {k : Nat}

omit [DecidableEq ι] in
theorem advance_tail (ha : advance b spurious p = .ok (p', b', events)) :
    b'.tail = b.tail ∨ b'.head = b.head ∧ ∃ ticket, .claimed ticket ∈ events := by
  cases p with
  | idle | pushLoad | popLoad =>
      cases ha
      exact .inl rfl
  | pushSwap x head =>
      simp only [advance] at ha
      split_ifs at ha <;> cases ha <;> exact .inl rfl
  | popSwap tail =>
      simp only [advance] at ha
      split_ifs at ha
      · cases ha
        exact .inr ⟨rfl, tail, List.mem_singleton.mpr rfl⟩
      · cases ha
        exact .inl rfl
  | pushCheck _ ticket | popCheck ticket =>
      simp only [advance, bind, Except.bind] at ha
      split at ha
      · cases ha
      · split_ifs at ha <;> cases ha <;> exact .inl rfl
  | pushStore _ ticket | pushPublish _ ticket | popRead ticket | popRelease ticket _ =>
      simp only [advance, bind, Except.bind] at ha
      split at ha
      · cases ha
      · cases ha
        exact .inl rfl

theorem next_tail {s s' : System ι α} (h : Next s events s') :
    s'.buffer.tail = s.buffer.tail ∨ s'.buffer.head = s.buffer.head ∧ ∃ ticket, .claimed ticket ∈ events := by
  cases h with
  | push i x hp => exact .inl rfl
  | pop i hp => exact .inl rfl
  | atomic i spurious p b _ ha hw => exact advance_tail ha

def Within (k : Nat) (i : Instant) : Prop := i.tail.toNat ≤ i.head.toNat ∧ i.head.toNat ≤ i.tail.toNat + 2 ^ k

omit [DecidableEq ι] in
theorem answer_eq_truth (query : Query) (hcapacity : b.capacity.toNat = 2 ^ k) (h : Within k (instant b)) :
    query.answer b = query.truth (2 ^ k) b.head.toNat b.tail.toNat := by
  obtain ⟨hordered, hfits⟩ := h
  have hle : b.tail ≤ b.head := BitVec.le_def.mpr hordered
  have hsub : (b.head - b.tail).toNat = b.head.toNat - b.tail.toNat := BitVec.toNat_sub_of_le hle
  cases query with
  | count =>
      rw [Query.answer, Query.truth, akArbuffCount, if_pos hle, hsub]
      exact Nat.cast_sub hordered
  | isEmpty => simp only [Query.answer, Query.truth, akArbuffIsEmpty, ← BitVec.toNat_inj]
  | isFull =>
      have hiff : b.capacity ≤ b.head - b.tail ↔ b.head.toNat = b.tail.toNat + 2 ^ k := by
        rw [BitVec.le_def, hcapacity, hsub]
        simp only [instant] at hfits hordered
        omega
      simp only [Query.answer, Query.truth, akArbuffIsFull, hiff]

end Indices

def AskingOk (k : Nat) (b : Arbuff α) : Asking → Prop
  | .idle => True
  | .started _ instants => instant b ∈ instants ∧ ∀ i ∈ instants, Within k i
  | .loaded _ head instants => ⟨head, b.tail⟩ ∈ instants ∧ ∀ i ∈ instants, Within k i

structure ObservedOk (k : Nat) (b₀ : Arbuff α) (s : Observed ι α) : Prop where
  run : ∃ events, Run Next (start b₀) events s.system
  asking : AskingOk k s.system.buffer s.asking

section Steps

variable {b₀ : Arbuff α} {k : Nat} {s s' : Observed ι α} {happenings : List (Happening α)}

theorem ObservedOk.within (hb : Represents b₀ k 0 []) (hk : 2 ≤ 2 ^ k) (h : ObservedOk k b₀ s) :
    s.system.buffer.capacity.toNat = 2 ^ k ∧ Within k (instant s.system.buffer) := by
  obtain ⟨events, hrun⟩ := h.run
  exact indices_of_run hb hk hrun

theorem ObservedOk.others (hb : Represents b₀ k 0 []) (hk : 2 ≤ 2 ^ k) (h : ObservedOk k b₀ s)
    {events : List (Event Size α)} {system : System ι α} (hn : Next s.system events system)
    (horderly : Orderly s (events.map .ring)) : ObservedOk k b₀ ⟨system, s.asking.note (instant system.buffer)⟩ := by
  obtain ⟨before, hrun⟩ := h.run
  have hrun' := hrun.next hn
  have hnow : Within k (instant system.buffer) := (indices_of_run hb hk hrun').2
  refine ⟨⟨_, hrun'⟩, ?_⟩
  have hasking := h.asking
  cases heq : s.asking with
  | idle => trivial
  | started query instants =>
      rw [heq] at hasking
      exact ⟨List.mem_cons_self, List.forall_mem_cons.mpr ⟨hnow, hasking.2⟩⟩
  | loaded query head instants =>
      rw [heq] at hasking
      refine ⟨?_, List.forall_mem_cons.mpr ⟨hnow, hasking.2⟩⟩
      rcases next_tail hn with htail | ⟨hhead, ticket, hclaimed⟩
      · rw [htail]
        exact List.mem_cons_of_mem _ hasking.1
      · have hsame := horderly ticket (List.mem_map_of_mem hclaimed) query head instants heq
        rw [← hsame, ← hhead]
        exact List.mem_cons_self

theorem ObservedOk.step (hb : Represents b₀ k 0 []) (hk : 2 ≤ 2 ^ k) (h : ObservedOk k b₀ s)
    (hs : guarded Orderly Step s happenings s') :
    ObservedOk k b₀ s' ∧ ∀ happening ∈ happenings, TrueSnapshot (2 ^ k) happening := by
  obtain ⟨hcapacity, hnow⟩ := h.within hb hk
  obtain ⟨hstep, horderly⟩ := hs
  have hasking := h.asking
  cases hstep with
  | others events system hn =>
      refine ⟨h.others hb hk hn horderly, ?_⟩
      intro happening hmem
      obtain ⟨event, -, rfl⟩ := List.mem_map.mp hmem
      trivial
  | ask query hidle => exact ⟨⟨h.run, List.mem_singleton.mpr rfl, by simpa using hnow⟩, nofun⟩
  | loadHead query instants heq =>
      rw [heq] at hasking
      exact ⟨⟨h.run, hasking⟩, nofun⟩
  | loadTail query head instants heq =>
      rw [heq] at hasking
      refine ⟨⟨h.run, trivial⟩, ?_⟩
      intro happening hmem
      cases List.mem_singleton.mp hmem
      refine ⟨_, hasking.1, ?_⟩
      exact answer_eq_truth query hcapacity (hasking.2 _ hasking.1)

end Steps

/-- In every run in which no pop takes a ticket between the two loads of a query once
a push has taken one there, every answer was true at an instant of its call. -/
theorem answers_true_snapshots (alloc : Size → Bool) (c : Size) (b : Arbuff α)
    (hb : akArbuffNew α alloc c = .ok (some b)) (hc : 2 ≤ (nextPowerOf2 c).toNat)
    (trace : List (Happening α)) (s : Observed ι α)
    (hrun : Run (guarded Orderly Step) ⟨start b, .idle⟩ trace s) :
    ∀ happening ∈ trace, TrueSnapshot (nextPowerOf2 c).toNat happening := by
  obtain ⟨hcap, ⟨k, h⟩ | rfl⟩ := akArbuffNew_ok hb
  swap
  · rw [← hcap] at hc
    simp at hc
  rw [← hcap, h.capacity] at hc ⊢
  have hinv : ObservedOk k b s ∧ ∀ happening ∈ trace, TrueSnapshot (2 ^ k) happening := by
    apply hrun.invariant (P := fun trace s => ObservedOk k b s ∧ ∀ happening ∈ trace, TrueSnapshot (2 ^ k) happening)
    · exact ⟨⟨⟨[], .start⟩, trivial⟩, nofun⟩
    · rintro trace s happenings s' ⟨hok, htrue⟩ hs
      obtain ⟨hok', hnew⟩ := hok.step h hc hs
      exact ⟨hok', List.forall_mem_append.mpr ⟨htrue, hnew⟩⟩
  exact hinv.2

def twoFree : Observed Bool Nat := ⟨start ⟨[⟨none, 0⟩, ⟨none, 1⟩], 2, 1, 0, 0⟩, .idle⟩

/-- A push takes its ticket between the two loads. -/
theorem counted_before_push : ∃ trace s, Run (guarded Orderly Step) twoFree trace s ∧
    .answered .count 0 (⟨1, 0⟩ :: List.replicate 4 ⟨0, 0⟩) ∈ trace ∧ ∀ happening ∈ trace, TrueSnapshot 2 happening := by
  have r₁ : Run (guarded Orderly Step) twoFree _ _ := (Run.start.next
    ⟨.ask _ .count rfl, by simp [Orderly]⟩).next ⟨.loadHead _ _ _ rfl, by simp [Orderly]⟩
  have r₂ := (r₁.next ⟨.others _ _ _ (.push _ false 7 rfl), by simp [Orderly]⟩).next
    ⟨.others _ _ _ (.atomic _ false false _ _ _ rfl ⟨by decide, by decide⟩), by simp [Orderly]⟩
  have r₃ := (r₂.next ⟨.others _ _ _ (.atomic _ false false _ _ _ rfl ⟨by decide, by decide⟩), by simp [Orderly]⟩).next
    ⟨.others _ _ _ (.atomic _ false false _ _ _ rfl ⟨by decide, by decide⟩), by simp [Orderly]⟩
  have r₄ := r₃.next ⟨.loadTail _ _ _ _ rfl, by simp [Orderly]⟩
  exact ⟨_, _, r₄, List.mem_append_right _ (List.mem_singleton.mpr rfl),
    answers_true_snapshots (fun _ => true) 2 _ (by decide) (by decide) _ _ r₄⟩

/-- A push and a pop take their tickets between the two loads; the query then takes
the head that it has loaded to be a whole word ahead of the tail. -/
theorem full_at_no_instant : ∃ trace s, akArbuffNew Nat (fun _ => true) 2 = .ok (some twoFree.system.buffer) ∧
    Run Step twoFree trace s ∧ ∃ happening ∈ trace, ¬TrueSnapshot 2 happening := by
  have r₁ : Run Step twoFree _ _ := (Run.start.next (.ask _ .isFull rfl)).next (.loadHead _ _ _ rfl)
  have r₂ := (r₁.next (.others _ _ _ (.push _ false 7 rfl))).next
    (.others _ _ _ (.atomic _ false false _ _ _ rfl ⟨by decide, by decide⟩))
  have r₃ := (r₂.next (.others _ _ _ (.atomic _ false false _ _ _ rfl ⟨by decide, by decide⟩))).next
    (.others _ _ _ (.atomic _ false false _ _ _ rfl ⟨by decide, by decide⟩))
  have r₄ := (r₃.next (.others _ _ _ (.atomic _ false false _ _ _ rfl ⟨by decide, by decide⟩))).next
    (.others _ _ _ (.atomic _ false false _ _ _ rfl ⟨by decide, by decide⟩))
  have r₅ := (r₄.next (.others _ _ _ (.pop _ true rfl))).next
    (.others _ _ _ (.atomic _ true false _ _ _ rfl ⟨by decide, by decide⟩))
  have r₆ := (r₅.next (.others _ _ _ (.atomic _ true false _ _ _ rfl ⟨by decide, by decide⟩))).next
    (.others _ _ _ (.atomic _ true false _ _ _ rfl ⟨by decide, by decide⟩))
  have r₇ := r₆.next (.loadTail _ _ _ _ rfl)
  exact ⟨_, _, by decide, r₇, _, List.mem_append_right _ (List.mem_singleton.mpr rfl), by decide⟩

end Ak24.ArbuffSnapshot
