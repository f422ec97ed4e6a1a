import Ak24.Transition

namespace Ak24.TicketRing

open Transition

variable {ι τ υ α : Type}

inductive Phase (τ α : Type)
  | idle
  | pushLoad (x : α)
  | pushCheck (x : α) (head : τ)
  | pushSwap (x : α) (head : τ)
  | pushStore (x : α) (head : τ)
  | pushPublish (x : α) (head : τ)
  | popLoad
  | popCheck (tail : τ)
  | popSwap (tail : τ)
  | popRead (tail : τ)
  | popRelease (tail : τ) (item : Option α)

inductive Event (τ α : Type)
  | won (ticket : τ) (x : α)
  | stored (ticket : τ) (x : α)
  | claimed (ticket : τ)
  | read (ticket : τ) (item : Option α)
  | returned (ticket : τ) (item : Option α)

def Phase.producing : Phase τ α → Option τ
  | .pushStore _ h | .pushPublish _ h => some h
  | _ => none

def Phase.consuming : Phase τ α → Option τ
  | .popRead t | .popRelease t _ => some t
  | _ => none

def Phase.map (f : τ → υ) : Phase τ α → Phase υ α
  | .idle => .idle
  | .pushLoad x => .pushLoad x
  | .pushCheck x h => .pushCheck x (f h)
  | .pushSwap x h => .pushSwap x (f h)
  | .pushStore x h => .pushStore x (f h)
  | .pushPublish x h => .pushPublish x (f h)
  | .popLoad => .popLoad
  | .popCheck t => .popCheck (f t)
  | .popSwap t => .popSwap (f t)
  | .popRead t => .popRead (f t)
  | .popRelease t v => .popRelease (f t) v

def Event.map (f : τ → υ) : Event τ α → Event υ α
  | .won t x => .won (f t) x
  | .stored t x => .stored (f t) x
  | .claimed t => .claimed (f t)
  | .read t v => .read (f t) v
  | .returned t v => .returned (f t) v

def Event.wonTicket : Event τ α → Option τ
  | .won t _ => some t
  | _ => none

def Event.returnedTicket : Event τ α → Option τ
  | .returned t _ => some t
  | _ => none

structure State (ι α : Type) where
  head : Nat
  tail : Nat
  value : Nat → Option α
  sequence : Nat → Nat
  phase : ι → Phase Nat α

def initial (ι : Type) (value : Nat → Option α) : State ι α := ⟨0, 0, value, id, fun _ => .idle⟩

/-- The moves of a thread that leave the ring as it is. A check may let a thread
go on to the swap of a ticket that is already gone: the swap then fails. -/
inductive Move (cap : Nat) (s : State ι α) : Phase Nat α → Phase Nat α → Prop
  | rest : Move cap s .idle .idle
  | startPush (x : α) : Move cap s .idle (.pushLoad x)
  | startPop : Move cap s .idle .popLoad
  | loadHead (x : α) : Move cap s (.pushLoad x) (.pushCheck x s.head)
  | passPush (x : α) (h : Nat) : (h = s.head → s.sequence (h % cap) = h) →
    Move cap s (.pushCheck x h) (.pushSwap x h)
  | againPush (x : α) (h : Nat) : Move cap s (.pushCheck x h) (.pushLoad x)
  | refusePush (x : α) (h : Nat) : Move cap s (.pushCheck x h) .idle
  | retryPush (x : α) (h : Nat) : Move cap s (.pushSwap x h) (.pushLoad x)
  | loadTail : Move cap s .popLoad (.popCheck s.tail)
  | passPop (t : Nat) : (t = s.tail → s.sequence (t % cap) = t + 1) → Move cap s (.popCheck t) (.popSwap t)
  | againPop (t : Nat) : Move cap s (.popCheck t) .popLoad
  | refusePop (t : Nat) : Move cap s (.popCheck t) .idle
  | retryPop (t : Nat) : Move cap s (.popSwap t) .popLoad

def Held (cap : Nat) (s : State ι α) : Phase Nat α → Prop
  | .pushCheck _ h => h ≤ s.head
  | .pushSwap _ h => h ≤ s.head ∧ (h = s.head → s.sequence (h % cap) = h)
  | .pushStore _ h | .pushPublish _ h => h < s.head ∧ s.sequence (h % cap) = h
  | .popCheck t => t ≤ s.tail
  | .popSwap t => t ≤ s.tail ∧ (t = s.tail → s.sequence (t % cap) = t + 1)
  | .popRead t | .popRelease t _ => t < s.tail ∧ s.sequence (t % cap) = t + 1
  | .idle | .pushLoad _ | .popLoad => True

/-- The ticket a slot is at: it is free for it, or filled by it. -/
structure Turn (cap : Nat) (s : State ι α) (slot t : Nat) : Prop where
  slot_eq : t % cap = slot
  below : t < s.tail + cap
  above : s.head ≤ t + cap
  sequence : s.sequence slot = t ∧ s.tail ≤ t ∨ s.sequence slot = t + 1 ∧ t < s.head

def Sole (f : Phase Nat α → Option Nat) (phase : ι → Phase Nat α) : Prop :=
  ∀ i j t, f (phase i) = some t → f (phase j) = some t → i = j

structure Owned (cap : Nat) (s : State ι α) : Prop where
  turn : ∀ slot < cap, ∃ t, Turn cap s slot t
  ordered : s.tail ≤ s.head
  held : ∀ i, Held cap s (s.phase i)
  producer : Sole Phase.producing s.phase
  consumer : Sole Phase.consuming s.phase

theorem succ_mod_ne {cap : Nat} (hcap : 2 ≤ cap) {s t : Nat} (h : s % cap = t % cap) : s ≠ t + 1 := by
  rintro rfl
  have hd : cap ∣ t + 1 - t := (Nat.modEq_iff_dvd' (Nat.le_succ t)).mp (Nat.ModEq.symm h)
  have := Nat.le_of_dvd (by omega) hd
  omega

section Slots

variable {cap : Nat} {s : State ι α}

theorem Turn.sequence_eq {slot t : Nat} (h : Turn cap s slot t) :
    s.sequence slot = t ∨ s.sequence slot = t + 1 :=
  h.sequence.imp And.left And.left

theorem Owned.turn_free (hs : Owned cap s) (hcap : 2 ≤ cap) {h : Nat} (hq : s.sequence (h % cap) = h) :
    Turn cap s (h % cap) h := by
  obtain ⟨t, ht⟩ := hs.turn _ (Nat.mod_lt h (by omega))
  rcases ht.sequence_eq with he | he
  · obtain rfl : t = h := he.symm.trans hq
    exact ht
  · exact absurd (hq.symm.trans he) (succ_mod_ne hcap ht.slot_eq.symm)

theorem Owned.turn_full (hs : Owned cap s) (hcap : 2 ≤ cap) {t : Nat} (hq : s.sequence (t % cap) = t + 1) :
    Turn cap s (t % cap) t := by
  obtain ⟨u, hu⟩ := hs.turn _ (Nat.mod_lt t (by omega))
  rcases hu.sequence_eq with he | he
  · exact absurd (he.symm.trans hq) (succ_mod_ne hcap hu.slot_eq)
  · obtain rfl : u = t := by omega
    exact hu

theorem Owned.full_lt (hs : Owned cap s) (hcap : 2 ≤ cap) {t : Nat} (hq : s.sequence (t % cap) = t + 1) :
    t < s.head := by
  rcases (hs.turn_full hcap hq).sequence with ⟨he, _⟩ | ⟨_, hlt⟩
  · omega
  · exact hlt

theorem Owned.head_le (hs : Owned cap s) (hcap : 2 ≤ cap) : s.head ≤ s.tail + cap := by
  obtain ⟨t, ht⟩ := hs.turn (s.tail % cap) (Nat.mod_lt _ (by omega))
  have hle : t ≤ s.tail := by
    by_contra hgt
    have hd : cap ∣ t - s.tail := (Nat.modEq_iff_dvd' (by omega)).mp ht.slot_eq.symm
    have := Nat.le_of_dvd (by omega) hd
    have := ht.below
    omega
  have := ht.above
  omega

end Slots

theorem owned_initial {cap : Nat} (value : Nat → Option α) : Owned cap (initial ι value) where
  turn := by
    intro slot hslot
    exact ⟨slot, Nat.mod_eq_of_lt hslot, by simp [initial, hslot], by simp [initial], by simp [initial]⟩
  ordered := le_rfl
  held := fun _ => trivial
  producer := by
    intro i j t h
    cases h
  consumer := by
    intro i j t h
    cases h

section Steps

variable {cap : Nat} {s : State ι α}

theorem Move.held {p q : Phase Nat α} (hm : Move cap s p q) (hp : Held cap s p) : Held cap s q := by
  cases hm with
  | rest | startPush | startPop | againPush | refusePush | retryPush | againPop | refusePop | retryPop => trivial
  | loadHead | loadTail => exact le_rfl
  | passPush x h hq => exact ⟨hp, hq⟩
  | passPop t hq => exact ⟨hp, hq⟩

theorem Move.unowned {p q : Phase Nat α} (hm : Move cap s p q) : q.producing = none ∧ q.consuming = none := by
  cases hm <;> exact ⟨rfl, rfl⟩

theorem Held.win {p : Phase Nat α} (hp : Held cap s p) : Held cap { s with head := s.head + 1 } p := by
  cases p with
  | idle | pushLoad | popLoad | popCheck | popSwap | popRead | popRelease => exact hp
  | pushCheck x h => exact Nat.le_succ_of_le hp
  | pushSwap x h =>
      refine ⟨Nat.le_succ_of_le hp.1, fun he => ?_⟩
      have hle : h ≤ s.head := hp.1
      have heq : h = s.head + 1 := he
      omega
  | pushStore x h | pushPublish x h => exact ⟨Nat.lt_succ_of_lt hp.1, hp.2⟩

theorem Held.claim {p : Phase Nat α} (hp : Held cap s p) : Held cap { s with tail := s.tail + 1 } p := by
  cases p with
  | idle | pushLoad | popLoad | pushCheck | pushSwap | pushStore | pushPublish => exact hp
  | popCheck t => exact Nat.le_succ_of_le hp
  | popSwap t =>
      refine ⟨Nat.le_succ_of_le hp.1, fun he => ?_⟩
      have hle : t ≤ s.tail := hp.1
      have heq : t = s.tail + 1 := he
      omega
  | popRead t | popRelease t v => exact ⟨Nat.lt_succ_of_lt hp.1, hp.2⟩

/-- Writing one slot's sequence leaves alone every phase that does not count on
the sequence the slot had. -/
theorem Held.write {p : Phase Nat α} {u n : Nat} (hp : Held cap s p)
    (hfree : ∀ h, h % cap = u % cap → s.sequence (u % cap) = h → h ≠ s.head ∧ p.producing ≠ some h)
    (hfull : ∀ t, t % cap = u % cap → s.sequence (u % cap) = t + 1 → t ≠ s.tail ∧ p.consuming ≠ some t) :
    Held cap { s with sequence := Function.update s.sequence (u % cap) n } p := by
  have key : ∀ {t m}, s.sequence (t % cap) = m → (t % cap = u % cap → s.sequence (u % cap) = m → False) →
      Function.update s.sequence (u % cap) n (t % cap) = m := by
    intro t m hm hno
    by_cases he : t % cap = u % cap
    · exact absurd (he ▸ hm) (hno he)
    · rw [Function.update_of_ne he, hm]
  cases p with
  | idle | pushLoad | popLoad | pushCheck | popCheck => exact hp
  | pushSwap x h => exact ⟨hp.1, fun he => key (hp.2 he) fun hu hq => (hfree h hu hq).1 he⟩
  | pushStore x h | pushPublish x h => exact ⟨hp.1, key hp.2 fun hu hq => (hfree h hu hq).2 rfl⟩
  | popSwap t => exact ⟨hp.1, fun he => key (hp.2 he) fun hu hq => (hfull t hu hq).1 he⟩
  | popRead t | popRelease t v => exact ⟨hp.1, key hp.2 fun hu hq => (hfull t hu hq).2 rfl⟩

end Steps

variable [DecidableEq ι]

def State.goto (s : State ι α) (i : ι) (p : Phase Nat α) : State ι α :=
  { s with phase := Function.update s.phase i p }

inductive Step (cap : Nat) : State ι α → List (Event Nat α) → State ι α → Prop
  | move (s : State ι α) (i : ι) (p : Phase Nat α) (hm : Move cap s (s.phase i) p) : Step cap s [] (s.goto i p)
  | win (s : State ι α) (i : ι) (x : α) (hp : s.phase i = .pushSwap x s.head) :
    Step cap s [.won s.head x] ({ s with head := s.head + 1 }.goto i (.pushStore x s.head))
  | store (s : State ι α) (i : ι) (x : α) (h : Nat) (hp : s.phase i = .pushStore x h) :
    Step cap s [.stored h x]
      ({ s with value := Function.update s.value (h % cap) (some x) }.goto i (.pushPublish x h))
  | publish (s : State ι α) (i : ι) (x : α) (h : Nat) (hp : s.phase i = .pushPublish x h) :
    Step cap s [] ({ s with sequence := Function.update s.sequence (h % cap) (h + 1) }.goto i .idle)
  | claim (s : State ι α) (i : ι) (hp : s.phase i = .popSwap s.tail) :
    Step cap s [.claimed s.tail] ({ s with tail := s.tail + 1 }.goto i (.popRead s.tail))
  | read (s : State ι α) (i : ι) (t : Nat) (hp : s.phase i = .popRead t) :
    Step cap s [.read t (s.value (t % cap))] (s.goto i (.popRelease t (s.value (t % cap))))
  | release (s : State ι α) (i : ι) (t : Nat) (v : Option α) (hp : s.phase i = .popRelease t v) :
    Step cap s [.returned t v]
      ({ s with sequence := Function.update s.sequence (t % cap) (t + cap) }.goto i .idle)

theorem Sole.update {f : Phase Nat α → Option Nat} {phase : ι → Phase Nat α} (h : Sole f phase) (i : ι)
    {p : Phase Nat α} (hp : ∀ t, f p = some t → f (phase i) = some t ∨ ∀ j, f (phase j) ≠ some t) :
    Sole f (Function.update phase i p) := by
  have key : ∀ j t, j ≠ i → f p = some t → f (phase j) ≠ some t := by
    intro j t hj ht hjt
    rcases hp t ht with hi | hfree
    · exact hj (h j i t hjt hi)
    · exact hfree j hjt
  intro j k t hj hk
  by_cases hji : j = i
  · by_cases hki : k = i
    · rw [hji, hki]
    · rw [hji, Function.update_self] at hj
      rw [Function.update_of_ne hki] at hk
      exact absurd hk (key k t hki hj)
  · rw [Function.update_of_ne hji] at hj
    by_cases hki : k = i
    · rw [hki, Function.update_self] at hk
      exact absurd hj (key j t hji hk)
    · rw [Function.update_of_ne hki] at hk
      exact h j k t hj hk

section Preserved

variable {cap : Nat} {s : State ι α} {i : ι}

theorem Owned.goto (hs : Owned cap s) {p : Phase Nat α} (hp : Held cap s p)
    (hprod : ∀ t, p.producing = some t → (s.phase i).producing = some t)
    (hcons : ∀ t, p.consuming = some t → (s.phase i).consuming = some t) : Owned cap (s.goto i p) where
  turn := by
    intro slot hslot
    obtain ⟨t, ht⟩ := hs.turn slot hslot
    exact ⟨t, ht.slot_eq, ht.below, ht.above, ht.sequence⟩
  ordered := hs.ordered
  held := (Function.forall_update_iff s.phase fun _ q => Held cap s q).mpr ⟨hp, fun j _ => hs.held j⟩
  producer := hs.producer.update i fun t ht => Or.inl (hprod t ht)
  consumer := hs.consumer.update i fun t ht => Or.inl (hcons t ht)

theorem Owned.win (hs : Owned cap s) (hcap : 2 ≤ cap) {x : α} (hp : s.phase i = .pushSwap x s.head) :
    Owned cap ({ s with head := s.head + 1 }.goto i (.pushStore x s.head)) := by
  have hheld := hs.held i
  rw [hp] at hheld
  have hq : s.sequence (s.head % cap) = s.head := hheld.2 rfl
  refine ⟨?_, Nat.le_succ_of_le hs.ordered, ?_, ?_, ?_⟩
  · intro slot hslot
    obtain ⟨t, ht⟩ := hs.turn slot hslot
    refine ⟨t, ht.slot_eq, ht.below, ?_, ht.sequence.imp id fun h => ⟨h.1, Nat.lt_succ_of_lt h.2⟩⟩
    -- only the slot of the ticket just won could be a whole lap behind
    have hne : s.head ≠ t + cap := by
      intro he
      have hmod : s.head % cap = slot := by rw [he, Nat.add_mod_right, ht.slot_eq]
      rw [hmod] at hq
      rcases ht.sequence_eq with h | h <;> omega
    have := ht.above
    show s.head + 1 ≤ t + cap
    omega
  · refine (Function.forall_update_iff s.phase fun _ q => Held cap { s with head := s.head + 1 } q).mpr ⟨?_, ?_⟩
    · exact ⟨Nat.lt_succ_self _, hq⟩
    · exact fun j _ => (hs.held j).win
  · apply hs.producer.update i
    rintro t ⟨⟩
    refine Or.inr fun j hj => ?_
    have hh := hs.held j
    cases hph : s.phase j <;> rw [hph] at hh hj <;> cases hj <;> exact absurd hh.1 (lt_irrefl _)
  · apply hs.consumer.update i
    rintro t ⟨⟩

theorem Owned.claim (hs : Owned cap s) (hcap : 2 ≤ cap) (hp : s.phase i = .popSwap s.tail) :
    Owned cap ({ s with tail := s.tail + 1 }.goto i (.popRead s.tail)) := by
  have hheld := hs.held i
  rw [hp] at hheld
  have hq : s.sequence (s.tail % cap) = s.tail + 1 := hheld.2 rfl
  refine ⟨?_, hs.full_lt hcap hq, ?_, ?_, ?_⟩
  · intro slot hslot
    obtain ⟨t, ht⟩ := hs.turn slot hslot
    refine ⟨t, ht.slot_eq, ?_, ht.above, ?_⟩
    · have := ht.below
      show t < s.tail + 1 + cap
      omega
    · rcases ht.sequence with ⟨he, hle⟩ | hfull
      · refine Or.inl ⟨he, lt_of_le_of_ne hle ?_⟩
        rintro rfl
        rw [ht.slot_eq] at hq
        omega
      · exact Or.inr hfull
  · refine (Function.forall_update_iff s.phase fun _ q => Held cap { s with tail := s.tail + 1 } q).mpr ⟨?_, ?_⟩
    · exact ⟨Nat.lt_succ_self _, hq⟩
    · exact fun j _ => (hs.held j).claim
  · apply hs.producer.update i
    rintro t ⟨⟩
  · apply hs.consumer.update i
    rintro t ⟨⟩
    refine Or.inr fun j hj => ?_
    have hh := hs.held j
    cases hph : s.phase j <;> rw [hph] at hh hj <;> cases hj <;> exact absurd hh.1 (lt_irrefl _)

theorem Owned.publish (hs : Owned cap s) (hcap : 2 ≤ cap) {x : α} {h : Nat} (hp : s.phase i = .pushPublish x h) :
    Owned cap ({ s with sequence := Function.update s.sequence (h % cap) (h + 1) }.goto i .idle) := by
  have hheld := hs.held i
  rw [hp] at hheld
  obtain ⟨hlt, hq⟩ : h < s.head ∧ s.sequence (h % cap) = h := hheld
  refine ⟨?_, hs.ordered, ?_, hs.producer.update i (by rintro t ⟨⟩), hs.consumer.update i (by rintro t ⟨⟩)⟩
  · intro slot hslot
    by_cases he : slot = h % cap
    · subst he
      have ht := hs.turn_free hcap hq
      exact ⟨h, rfl, ht.below, ht.above, Or.inr ⟨Function.update_self .., hlt⟩⟩
    · obtain ⟨t, ht⟩ := hs.turn slot hslot
      refine ⟨t, ht.slot_eq, ht.below, ht.above, ?_⟩
      rw [show (State.sequence _ slot) = s.sequence slot from Function.update_of_ne he ..]
      exact ht.sequence
  · refine (Function.forall_update_iff s.phase fun _ q =>
      Held cap { s with sequence := Function.update s.sequence (h % cap) (h + 1) } q).mpr ⟨trivial, ?_⟩
    intro j hj
    refine (hs.held j).write ?_ ?_
    · rintro u - hu
      obtain rfl : h = u := hq.symm.trans hu
      refine ⟨hlt.ne, fun hprod => hj (hs.producer j i h hprod ?_)⟩
      rw [hp]
      rfl
    · intro t ht hu
      exact absurd (hq.symm.trans hu) (succ_mod_ne hcap ht.symm)

theorem Owned.release (hs : Owned cap s) (hcap : 2 ≤ cap) {t : Nat} {v : Option α}
    (hp : s.phase i = .popRelease t v) :
    Owned cap ({ s with sequence := Function.update s.sequence (t % cap) (t + cap) }.goto i .idle) := by
  have hheld := hs.held i
  rw [hp] at hheld
  obtain ⟨hlt, hq⟩ : t < s.tail ∧ s.sequence (t % cap) = t + 1 := hheld
  refine ⟨?_, hs.ordered, ?_, hs.producer.update i (by rintro t ⟨⟩), hs.consumer.update i (by rintro t ⟨⟩)⟩
  · intro slot hslot
    by_cases he : slot = t % cap
    · subst he
      have ht := hs.turn_full hcap hq
      have hord := hs.ordered
      have habove := ht.above
      refine ⟨t + cap, Nat.add_mod_right .., Nat.add_lt_add_right hlt cap, ?_, Or.inl ⟨Function.update_self .., ?_⟩⟩
      · exact habove.trans (Nat.le_add_right _ _)
      · exact hord.trans habove
    · obtain ⟨u, hu⟩ := hs.turn slot hslot
      refine ⟨u, hu.slot_eq, hu.below, hu.above, ?_⟩
      rw [show (State.sequence _ slot) = s.sequence slot from Function.update_of_ne he ..]
      exact hu.sequence
  · refine (Function.forall_update_iff s.phase fun _ q =>
      Held cap { s with sequence := Function.update s.sequence (t % cap) (t + cap) } q).mpr ⟨trivial, ?_⟩
    intro j hj
    refine (hs.held j).write ?_ ?_
    · intro h hh hu
      exact absurd (hu.symm.trans hq) (succ_mod_ne hcap hh)
    · rintro u - hu
      obtain rfl : t = u := by omega
      refine ⟨hlt.ne, fun hcons => hj (hs.consumer j i t hcons ?_)⟩
      rw [hp]
      rfl

theorem Owned.step (hcap : 2 ≤ cap) {s' : State ι α} {events : List (Event Nat α)} (hs : Owned cap s)
    (h : Step cap s events s') : Owned cap s' := by
  cases h with
  | move i p hm =>
      refine hs.goto (hm.held (hs.held i)) ?_ ?_
      · intro t ht
        rw [hm.unowned.1] at ht
        cases ht
      · intro t ht
        rw [hm.unowned.2] at ht
        cases ht
  | win i x hp => exact hs.win hcap hp
  | store i x h hp =>
      have hheld := hs.held i
      rw [hp] at hheld
      have hgoto := hs.goto (i := i) (p := .pushPublish x h) hheld (by rw [hp]; exact fun _ => id) (by rintro _ ⟨⟩)
      refine ⟨?_, hgoto.ordered, ?_, hgoto.producer, hgoto.consumer⟩
      · intro slot hslot
        obtain ⟨t, ht⟩ := hs.turn slot hslot
        exact ⟨t, ht.slot_eq, ht.below, ht.above, ht.sequence⟩
      · exact hgoto.held
  | publish i x h hp => exact hs.publish hcap hp
  | claim i hp => exact hs.claim hcap hp
  | read i t hp =>
      have hheld := hs.held i
      rw [hp] at hheld
      refine hs.goto hheld (by rintro _ ⟨⟩) ?_
      rw [hp]
      exact fun _ => id
  | release i t v hp => exact hs.release hcap hp

end Preserved

end Ak24.TicketRing
