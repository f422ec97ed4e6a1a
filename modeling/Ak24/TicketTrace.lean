import Ak24.TicketRing

namespace Ak24.TicketTrace

open Transition TicketRing

variable {ι α : Type}

def Carries (cap : Nat) (trace : List (Event Nat α)) (s : State ι α) : Phase Nat α → Prop
  | .pushStore x h => .won h x ∈ trace
  | .pushPublish x h => .stored h x ∈ trace ∧ s.value (h % cap) = some x
  | .popRelease t v => (∃ v, .read t v ∈ trace) ∧ ∃ x, v = some x ∧ .stored t x ∈ trace
  | _ => True

def Publishing (s : State ι α) (x : α) (t : Nat) : Prop := ∃ i, s.phase i = .pushPublish x t

/-- The invariant that ties the slots to the events: tickets are won once, a
filled slot has the item of its ticket, and an item stays in its slot from the
store until the pop with its ticket has read it. -/
structure Recorded (cap : Nat) (trace : List (Event Nat α)) (s : State ι α) : Prop where
  won_lt : ∀ t x, .won t x ∈ trace → t < s.head
  won_unique : ∀ t x y, .won t x ∈ trace → .won t y ∈ trace → x = y
  won_once : (trace.filterMap Event.wonTicket).Nodup
  stored_won : ∀ t x, .stored t x ∈ trace → .won t x ∈ trace
  full : ∀ t, s.sequence (t % cap) = t + 1 → ∃ x, s.value (t % cap) = some x ∧ .stored t x ∈ trace
  carries : ∀ i, Carries cap trace s (s.phase i)
  kept : ∀ t x, .stored t x ∈ trace →
    (∃ v, .read t v ∈ trace) ∨ s.sequence (t % cap) = t + 1 ∨ Publishing s x t
  returned_stored : ∀ t v, .returned t v ∈ trace → ∃ x, v = some x ∧ .stored t x ∈ trace
  returned_gone : ∀ t v, .returned t v ∈ trace → t < s.tail ∧ ∀ i, (s.phase i).consuming ≠ some t
  returned_once : (trace.filterMap Event.returnedTicket).Nodup

theorem recorded_initial {cap : Nat} (value : Nat → Option α) : Recorded cap [] (initial ι value) := by
  refine ⟨?_, ?_, List.nodup_nil, ?_, ?_, fun _ => trivial, ?_, ?_, ?_, List.nodup_nil⟩
  · intro t x h
    cases h
  · intro t x y h
    cases h
  · intro t x h
    cases h
  · intro t h
    have := Nat.mod_le t cap
    simp only [initial, id] at h
    omega
  · intro t x h
    cases h
  · intro t v h
    cases h
  · intro t v h
    cases h

theorem Carries.mono {cap : Nat} {trace events : List (Event Nat α)} {s s' : State ι α} {p : Phase Nat α}
    (h : Carries cap trace s p)
    (hv : ∀ x t, p = .pushPublish x t → s.value (t % cap) = some x → s'.value (t % cap) = some x) :
    Carries cap (trace ++ events) s' p := by
  cases p with
  | pushStore x t => exact List.mem_append_left _ h
  | pushPublish x t => exact ⟨List.mem_append_left _ h.1, hv x t rfl h.2⟩
  | popRelease t v =>
      obtain ⟨⟨u, hu⟩, x, hx, hs⟩ := h
      exact ⟨⟨u, List.mem_append_left _ hu⟩, x, hx, List.mem_append_left _ hs⟩
  | idle | pushLoad | pushCheck | pushSwap | popLoad | popCheck | popSwap | popRead => trivial

theorem not_publishing_of_move {cap : Nat} {s : State ι α} {p q : Phase Nat α} (hm : Move cap s p q) (x : α)
    (t : Nat) : p ≠ .pushPublish x t := by
  cases hm <;> rintro ⟨⟩

theorem carries_of_move {cap : Nat} {s : State ι α} {p q : Phase Nat α} (hm : Move cap s p q)
    (trace : List (Event Nat α)) : Carries cap trace s q := by
  cases hm <;> trivial

variable {cap : Nat} {trace : List (Event Nat α)} {s : State ι α}

theorem filterMap_append_none {β : Type} {f : Event Nat α → Option β} {e : Event Nat α} (he : f e = none) :
    (trace ++ [e]).filterMap f = trace.filterMap f := by
  rw [List.filterMap_append, List.filterMap_cons_none he, List.filterMap_nil, List.append_nil]

theorem Recorded.note (h : Recorded cap trace s) {e : Event Nat α} (hwon : ∀ t x, .won t x ≠ e)
    (hstored : ∀ t x, .stored t x ≠ e) (hret : ∀ t v, .returned t v ≠ e) : Recorded cap (trace ++ [e]) s := by
  have old : ∀ {e'}, e' ∈ trace ++ [e] → e' ≠ e → e' ∈ trace := fun hm hne =>
    (List.mem_append.mp hm).resolve_right fun hs => hne (List.mem_singleton.mp hs)
  refine ⟨?_, ?_, ?_, ?_, ?_, fun j => (h.carries j).mono fun _ _ _ hv => hv, ?_, ?_, ?_, ?_⟩
  · exact fun t x ht => h.won_lt t x (old ht (hwon t x))
  · exact fun t x y hx hy => h.won_unique t x y (old hx (hwon t x)) (old hy (hwon t y))
  · rw [filterMap_append_none]
    · exact h.won_once
    · cases e with
      | won t x => exact absurd rfl (hwon t x)
      | stored | claimed | read | returned => rfl
  · exact fun t x ht => List.mem_append_left _ (h.stored_won t x (old ht (hstored t x)))
  · intro t ht
    obtain ⟨y, hy, hst⟩ := h.full t ht
    exact ⟨y, hy, List.mem_append_left _ hst⟩
  · intro t y ht
    rcases h.kept t y (old ht (hstored t y)) with ⟨v, hv⟩ | hkept
    · exact Or.inl ⟨v, List.mem_append_left _ hv⟩
    · exact Or.inr hkept
  · intro t v ht
    obtain ⟨y, hy, hst⟩ := h.returned_stored t v (old ht (hret t v))
    exact ⟨y, hy, List.mem_append_left _ hst⟩
  · exact fun t v ht => h.returned_gone t v (old ht (hret t v))
  · rw [filterMap_append_none]
    · exact h.returned_once
    · cases e with
      | returned t v => exact absurd rfl (hret t v)
      | won | stored | claimed | read => rfl

theorem Recorded.value_of_stored (h : Recorded cap trace s) {t : Nat} {x : α} (hst : .stored t x ∈ trace)
    (hread : ∀ v, .read t v ∉ trace) : s.value (t % cap) = some x := by
  rcases h.kept t x hst with ⟨v, hv⟩ | hf | ⟨i, hi⟩
  · exact absurd hv (hread v)
  · obtain ⟨y, hy, hsty⟩ := h.full t hf
    rw [hy, h.won_unique t x y (h.stored_won t x hst) (h.stored_won t y hsty)]
  · have hcar := h.carries i
    rw [hi] at hcar
    exact hcar.2

variable [DecidableEq ι] {i : ι}

theorem Publishing.goto {x : α} {t : Nat} {p : Phase Nat α} (h : Publishing s x t)
    (hp : s.phase i ≠ .pushPublish x t) : Publishing (s.goto i p) x t := by
  obtain ⟨j, hj⟩ := h
  refine ⟨j, ?_⟩
  have hne : j ≠ i := by
    rintro rfl
    exact hp hj
  exact (Function.update_of_ne hne ..).trans hj

theorem unconsumed_goto {t : Nat} {p : Phase Nat α} (h : ∀ j, (s.phase j).consuming ≠ some t)
    (hp : p.consuming ≠ some t) (j : ι) : ((s.goto i p).phase j).consuming ≠ some t := by
  revert j
  exact (Function.forall_update_iff s.phase fun _ q => q.consuming ≠ some t).mpr ⟨hp, fun j _ => h j⟩

theorem carries_goto {cap : Nat} {trace : List (Event Nat α)} {s : State ι α} {p : Phase Nat α}
    (hp : Carries cap trace s p) (h : ∀ j, j ≠ i → Carries cap trace s (s.phase j)) (j : ι) :
    Carries cap trace s ((s.goto i p).phase j) := by
  revert j
  exact (Function.forall_update_iff s.phase fun _ q => Carries cap trace s q).mpr ⟨hp, h⟩

theorem Recorded.move (h : Recorded cap trace s) {p : Phase Nat α} (hm : Move cap s (s.phase i) p) :
    Recorded cap trace (s.goto i p) where
  won_lt := h.won_lt
  won_unique := h.won_unique
  won_once := h.won_once
  stored_won := h.stored_won
  full := h.full
  carries := carries_goto (carries_of_move hm trace) fun j _ => h.carries j
  kept := fun t x ht => (h.kept t x ht).imp id (Or.imp id fun hp => hp.goto (not_publishing_of_move hm x t))
  returned_stored := h.returned_stored
  returned_gone := fun t v ht =>
    ⟨(h.returned_gone t v ht).1, unconsumed_goto (h.returned_gone t v ht).2 (by simp [hm.unowned.2])⟩
  returned_once := h.returned_once

theorem Recorded.win (h : Recorded cap trace s) {x : α} (hp : s.phase i = .pushSwap x s.head) :
    Recorded cap (trace ++ [.won s.head x]) ({ s with head := s.head + 1 }.goto i (.pushStore x s.head)) where
  won_lt := by
    intro t y ht
    rcases List.mem_append.mp ht with ht | ht
    · exact Nat.lt_succ_of_lt (h.won_lt t y ht)
    · cases List.mem_singleton.mp ht
      exact Nat.lt_succ_self _
  won_unique := by
    intro t y z hy hz
    rcases List.mem_append.mp hy with hy | hy <;> rcases List.mem_append.mp hz with hz | hz
    · exact h.won_unique t y z hy hz
    · cases List.mem_singleton.mp hz
      exact absurd (h.won_lt _ y hy) (lt_irrefl _)
    · cases List.mem_singleton.mp hy
      exact absurd (h.won_lt _ z hz) (lt_irrefl _)
    · cases List.mem_singleton.mp hy
      cases List.mem_singleton.mp hz
      rfl
  won_once := by
    rw [List.filterMap_append]
    refine List.nodup_append.mpr ⟨h.won_once, by simp [Event.wonTicket], ?_⟩
    intro t ht u hu
    obtain rfl : u = s.head := by simpa [Event.wonTicket] using hu
    obtain ⟨e, he, hwon⟩ := List.mem_filterMap.mp ht
    cases e with
    | won m y =>
        obtain rfl : m = t := by simpa [Event.wonTicket] using hwon
        exact (h.won_lt m y he).ne
    | stored | claimed | read | returned => cases hwon
  stored_won := by
    intro t y ht
    exact List.mem_append_left _ (h.stored_won t y (by simpa using ht))
  full := by
    intro t ht
    obtain ⟨y, hy, hs⟩ := h.full t ht
    exact ⟨y, hy, List.mem_append_left _ hs⟩
  carries := carries_goto (by simp [Carries]) fun j _ => (h.carries j).mono fun _ _ _ hv => hv
  kept := by
    intro t y ht
    rcases h.kept t y (by simpa using ht) with ⟨v, hv⟩ | hq | hpub
    · exact Or.inl ⟨v, List.mem_append_left _ hv⟩
    · exact Or.inr (Or.inl hq)
    · exact Or.inr (Or.inr (Publishing.goto (s := { s with head := s.head + 1 }) hpub (by simp [hp])))
  returned_stored := by
    intro t v ht
    obtain ⟨y, hy, hs⟩ := h.returned_stored t v (by simpa using ht)
    exact ⟨y, hy, List.mem_append_left _ hs⟩
  returned_gone := by
    intro t v ht
    obtain ⟨hlt, hgone⟩ := h.returned_gone t v (by simpa using ht)
    exact ⟨hlt, unconsumed_goto (s := { s with head := s.head + 1 }) hgone (by rintro ⟨⟩)⟩
  returned_once := by
    rw [filterMap_append_none rfl]
    exact h.returned_once

theorem Recorded.claim (h : Recorded cap trace s) (hp : s.phase i = .popSwap s.tail) :
    Recorded cap trace ({ s with tail := s.tail + 1 }.goto i (.popRead s.tail)) where
  won_lt := h.won_lt
  won_unique := h.won_unique
  won_once := h.won_once
  stored_won := h.stored_won
  full := h.full
  carries := carries_goto (s := { s with tail := s.tail + 1 }) trivial fun j _ => h.carries j
  kept := by
    intro t y ht
    refine (h.kept t y ht).imp id (Or.imp id fun hpub => ?_)
    exact Publishing.goto (s := { s with tail := s.tail + 1 }) hpub (by simp [hp])
  returned_stored := h.returned_stored
  returned_gone := by
    intro t v ht
    obtain ⟨hlt, hgone⟩ := h.returned_gone t v ht
    refine ⟨Nat.lt_succ_of_lt hlt, unconsumed_goto (s := { s with tail := s.tail + 1 }) hgone ?_⟩
    rintro ⟨⟩
    exact lt_irrefl _ hlt
  returned_once := h.returned_once

theorem Recorded.read (h : Recorded cap trace s) (hs : Owned cap s) {t : Nat} (hp : s.phase i = .popRead t)
    (hread : ∃ v, .read t v ∈ trace) : Recorded cap trace (s.goto i (.popRelease t (s.value (t % cap)))) where
  won_lt := h.won_lt
  won_unique := h.won_unique
  won_once := h.won_once
  stored_won := h.stored_won
  full := h.full
  carries := by
    refine carries_goto ⟨hread, ?_⟩ fun j _ => h.carries j
    have hheld := hs.held i
    rw [hp] at hheld
    exact h.full t hheld.2
  kept := fun u y hu => (h.kept u y hu).imp id (Or.imp id fun hpub => hpub.goto (by simp [hp]))
  returned_stored := h.returned_stored
  returned_gone := by
    intro u v hu
    obtain ⟨hlt, hgone⟩ := h.returned_gone u v hu
    refine ⟨hlt, unconsumed_goto hgone ?_⟩
    have := hgone i
    rw [hp] at this
    exact this
  returned_once := h.returned_once

/-- The slot a push writes to is free for its own ticket, so no item that is
still wanted is in it. -/
theorem Recorded.store (h : Recorded cap trace s) (hs : Owned cap s) (hcap : 2 ≤ cap) {x : α} {n : Nat}
    (hp : s.phase i = .pushStore x n) :
    Recorded cap (trace ++ [.stored n x])
      ({ s with value := Function.update s.value (n % cap) (some x) }.goto i (.pushPublish x n)) := by
  have hheld := hs.held i
  have hcar := h.carries i
  rw [hp] at hheld hcar
  obtain ⟨hlt, hq⟩ : n < s.head ∧ s.sequence (n % cap) = n := hheld
  have hother : ∀ t, t % cap = n % cap → s.sequence (t % cap) = t + 1 → False := by
    intro t ht hf
    rw [ht, hq] at hf
    exact succ_mod_ne hcap ht.symm hf
  have hvalue : ∀ t, t % cap ≠ n % cap → Function.update s.value (n % cap) (some x) (t % cap) = s.value (t % cap) :=
    fun t ht => Function.update_of_ne ht ..
  refine ⟨?_, ?_, ?_, ?_, ?_, ?_, ?_, ?_, ?_, ?_⟩
  · exact fun t y ht => h.won_lt t y (by simpa using ht)
  · exact fun t y z hy hz => h.won_unique t y z (by simpa using hy) (by simpa using hz)
  · rw [filterMap_append_none rfl]
    exact h.won_once
  · intro t y ht
    rcases List.mem_append.mp ht with ht | ht
    · exact List.mem_append_left _ (h.stored_won t y ht)
    · cases List.mem_singleton.mp ht
      exact List.mem_append_left _ hcar
  · intro t ht
    obtain ⟨y, hy, hst⟩ := h.full t ht
    refine ⟨y, ?_, List.mem_append_left _ hst⟩
    exact (hvalue t fun he => hother t he ht).trans hy
  · refine carries_goto ?_ fun j hj => (h.carries j).mono fun y t hph hv => ?_
    · exact ⟨by simp, Function.update_self ..⟩
    · have hjheld := hs.held j
      rw [hph] at hjheld
      refine (hvalue t fun he => hj (hs.producer j i t ?_ ?_)).trans hv
      · rw [hph]
        rfl
      · obtain rfl : t = n := by rw [← hjheld.2, he, hq]
        rw [hp]
        rfl
  · intro t y ht
    rcases List.mem_append.mp ht with ht | ht
    · rcases h.kept t y ht with ⟨v, hv⟩ | hf | hpub
      · exact Or.inl ⟨v, List.mem_append_left _ hv⟩
      · exact Or.inr (Or.inl hf)
      · exact Or.inr (Or.inr (Publishing.goto
          (s := { s with value := Function.update s.value (n % cap) (some x) }) hpub (by simp [hp])))
    · cases List.mem_singleton.mp ht
      exact Or.inr (Or.inr ⟨i, Function.update_self ..⟩)
  · intro t v ht
    obtain ⟨y, hy, hst⟩ := h.returned_stored t v (by simpa using ht)
    exact ⟨y, hy, List.mem_append_left _ hst⟩
  · intro t v ht
    obtain ⟨hl, hgone⟩ := h.returned_gone t v (by simpa using ht)
    exact ⟨hl, unconsumed_goto (s := { s with value := Function.update s.value (n % cap) (some x) }) hgone
      (by rintro ⟨⟩)⟩
  · rw [filterMap_append_none rfl]
    exact h.returned_once

theorem Recorded.publish (h : Recorded cap trace s) (hs : Owned cap s) (hcap : 2 ≤ cap) {x : α} {n : Nat}
    (hp : s.phase i = .pushPublish x n) :
    Recorded cap trace ({ s with sequence := Function.update s.sequence (n % cap) (n + 1) }.goto i .idle) := by
  have hheld := hs.held i
  have hcar := h.carries i
  rw [hp] at hheld hcar
  obtain ⟨hlt, hq⟩ : n < s.head ∧ s.sequence (n % cap) = n := hheld
  obtain ⟨hstored, hvalue⟩ := hcar
  refine ⟨h.won_lt, h.won_unique, h.won_once, h.stored_won, ?_, ?_, ?_, h.returned_stored, ?_, h.returned_once⟩
  · intro t ht
    by_cases he : t % cap = n % cap
    · have hn : n + 1 = t + 1 := by simpa [State.goto, he] using ht
      obtain rfl : t = n := by omega
      exact ⟨x, hvalue, hstored⟩
    · exact h.full t (by simpa [State.goto, he] using ht)
  · exact carries_goto (s := { s with sequence := Function.update s.sequence (n % cap) (n + 1) }) trivial
      fun j _ => h.carries j
  · intro t y ht
    rcases h.kept t y ht with hread | hf | ⟨j, hj⟩
    · exact Or.inl hread
    · refine Or.inr (Or.inl ((Function.update_of_ne ?_ ..).trans hf))
      intro he
      rw [he, hq] at hf
      exact succ_mod_ne hcap he.symm hf
    · by_cases hji : j = i
      · subst hji
        obtain ⟨rfl, rfl⟩ : x = y ∧ n = t := by simpa [hp] using hj
        exact Or.inr (Or.inl (Function.update_self ..))
      · exact Or.inr (Or.inr ⟨j, (Function.update_of_ne hji ..).trans hj⟩)
  · intro t v ht
    obtain ⟨hl, hgone⟩ := h.returned_gone t v ht
    exact ⟨hl, unconsumed_goto (s := { s with sequence := Function.update s.sequence (n % cap) (n + 1) }) hgone
      (by rintro ⟨⟩)⟩

theorem Recorded.release (h : Recorded cap trace s) (hs : Owned cap s) (hcap : 2 ≤ cap) {n : Nat} {v : Option α}
    (hp : s.phase i = .popRelease n v) :
    Recorded cap (trace ++ [.returned n v])
      ({ s with sequence := Function.update s.sequence (n % cap) (n + cap) }.goto i .idle) := by
  have hheld := hs.held i
  have hcar := h.carries i
  rw [hp] at hheld hcar
  obtain ⟨hlt, hq⟩ : n < s.tail ∧ s.sequence (n % cap) = n + 1 := hheld
  obtain ⟨⟨u, hread⟩, x, hx, hstored⟩ := hcar
  have hother : ∀ t, t % cap = n % cap → s.sequence (t % cap) = t + 1 → t = n := by
    intro t ht hf
    rw [ht, hq] at hf
    omega
  refine ⟨?_, ?_, ?_, ?_, ?_, ?_, ?_, ?_, ?_, ?_⟩
  · exact fun t y ht => h.won_lt t y (by simpa using ht)
  · exact fun t y z hy hz => h.won_unique t y z (by simpa using hy) (by simpa using hz)
  · rw [filterMap_append_none rfl]
    exact h.won_once
  · exact fun t y ht => List.mem_append_left _ (h.stored_won t y (by simpa using ht))
  · intro t ht
    by_cases he : t % cap = n % cap
    · -- the released slot is free for its next lap, one ahead of no ticket of its own
      have hn : n + cap = t + 1 := by simpa [State.goto, he] using ht
      exact absurd hn (succ_mod_ne hcap (by rw [Nat.add_mod_right, he]))
    · obtain ⟨y, hy, hst⟩ := h.full t (by simpa [State.goto, he] using ht)
      exact ⟨y, hy, List.mem_append_left _ hst⟩
  · exact carries_goto (s := { s with sequence := Function.update s.sequence (n % cap) (n + cap) }) trivial
      fun j _ => (h.carries j).mono fun _ _ _ hv => hv
  · intro t y ht
    rcases h.kept t y (by simpa using ht) with ⟨w, hw⟩ | hf | hpub
    · exact Or.inl ⟨w, List.mem_append_left _ hw⟩
    · by_cases he : t % cap = n % cap
      · obtain rfl := hother t he hf
        exact Or.inl ⟨u, List.mem_append_left _ hread⟩
      · exact Or.inr (Or.inl ((Function.update_of_ne he ..).trans hf))
    · exact Or.inr (Or.inr (Publishing.goto
        (s := { s with sequence := Function.update s.sequence (n % cap) (n + cap) }) hpub (by simp [hp])))
  · intro t w ht
    rcases List.mem_append.mp ht with ht | ht
    · obtain ⟨y, hy, hst⟩ := h.returned_stored t w ht
      exact ⟨y, hy, List.mem_append_left _ hst⟩
    · cases List.mem_singleton.mp ht
      exact ⟨x, hx, List.mem_append_left _ hstored⟩
  · intro t w ht
    rcases List.mem_append.mp ht with ht | ht
    · obtain ⟨hl, hgone⟩ := h.returned_gone t w ht
      exact ⟨hl, unconsumed_goto (s := { s with sequence := Function.update s.sequence (n % cap) (n + cap) }) hgone
        (by rintro ⟨⟩)⟩
    · cases List.mem_singleton.mp ht
      refine ⟨hlt, (Function.forall_update_iff s.phase fun _ q => q.consuming ≠ some n).mpr ⟨by rintro ⟨⟩, ?_⟩⟩
      intro j hj hcons
      refine hj (hs.consumer j i n hcons ?_)
      rw [hp]
      rfl
  · rw [List.filterMap_append]
    refine List.nodup_append.mpr ⟨h.returned_once, by simp [Event.returnedTicket], ?_⟩
    intro t ht u hu
    obtain rfl : u = n := by simpa [Event.returnedTicket] using hu
    rintro rfl
    obtain ⟨e, he, hret⟩ := List.mem_filterMap.mp ht
    cases e with
    | returned m w =>
        obtain rfl : m = t := by simpa [Event.returnedTicket] using hret
        refine (h.returned_gone m w he).2 i ?_
        rw [hp]
        rfl
    | won | stored | claimed | read => cases hret

theorem Recorded.step (hcap : 2 ≤ cap) {s' : State ι α} {events : List (Event Nat α)} (hs : Owned cap s)
    (h : Recorded cap trace s) (hstep : Step cap s events s') : Recorded cap (trace ++ events) s' := by
  cases hstep with
  | move i p hm =>
      rw [List.append_nil]
      exact h.move hm
  | win i x hp => exact h.win hp
  | store i x n hp => exact h.store hs hcap hp
  | publish i x n hp =>
      rw [List.append_nil]
      exact h.publish hs hcap hp
  | claim i hp =>
      refine (h.note ?_ ?_ ?_).claim hp <;> rintro _ _ ⟨⟩
  | read i t hp =>
      refine (h.note ?_ ?_ ?_).read hs hp ⟨s.value (t % cap), by simp⟩ <;> rintro _ _ ⟨⟩
  | release i t v hp => exact h.release hs hcap hp

theorem recorded_of_run (hcap : 2 ≤ cap) {value : Nat → Option α} (h : Run (Step cap) (initial ι value) trace s) :
    Owned cap s ∧ Recorded cap trace s :=
  h.invariant (P := fun trace s => Owned cap s ∧ Recorded cap trace s) 
    ⟨owned_initial value, recorded_initial value⟩
    fun _ _ _ _ hs hstep => ⟨hs.1.step hcap hstep, hs.2.step hcap hs.1 hstep⟩

end Ak24.TicketTrace
