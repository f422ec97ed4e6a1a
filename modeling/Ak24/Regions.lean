import Mathlib

namespace Ak24.Regions

structure Region where
  start : Nat
  size : Nat

def Region.stop (r : Region) : Nat := r.start + r.size

def Region.Inside (r s : Region) : Prop := s.start ≤ r.start ∧ r.stop ≤ s.stop

def Region.Apart (r s : Region) : Prop := r.stop ≤ s.start ∨ s.stop ≤ r.start

instance (r s : Region) : Decidable (r.Inside s) := inferInstanceAs (Decidable (_ ∧ _))

instance (r s : Region) : Decidable (r.Apart s) := inferInstanceAs (Decidable (_ ∨ _))

def Region.addresses (r : Region) : Finset Nat := Finset.Ico r.start r.stop

variable {r s t u : Region}

theorem Region.Apart.symm (h : r.Apart s) : s.Apart r := Or.symm h

theorem Region.Apart.inside (h : s.Apart t) (hr : r.Inside s) (hu : u.Inside t) : r.Apart u := by
  rcases h with hst | hts
  · exact .inl (hr.2.trans (hst.trans hu.1))
  · exact .inr (hu.2.trans (hts.trans hr.1))

theorem Region.card_addresses (r : Region) : r.addresses.card = r.size := by
  rw [addresses, Nat.card_Ico, stop, Nat.add_sub_cancel_left]

theorem Region.Apart.disjoint (h : r.Apart s) : Disjoint r.addresses s.addresses := by
  rw [Finset.disjoint_left]
  intro x hr hs
  rw [addresses, Finset.mem_Ico] at hr hs
  rcases h with hrs | hsr
  · exact absurd (hr.2.trans_le (hrs.trans hs.1)) (lt_irrefl x)
  · exact absurd (hs.2.trans_le (hsr.trans hr.1)) (lt_irrefl x)

def covered : List Region → Finset Nat
  | [] => ∅
  | r :: regions => r.addresses ∪ covered regions

theorem mem_covered {regions : List Region} {x : Nat} : x ∈ covered regions ↔ ∃ r ∈ regions, x ∈ r.addresses := by
  induction regions with
  | nil => simp [covered]
  | cons r regions ih => simp [covered, ih]

theorem card_covered {regions : List Region} (h : regions.Pairwise Region.Apart) :
    (covered regions).card = (regions.map Region.size).sum := by
  induction regions with
  | nil => rfl
  | cons r regions ih =>
      obtain ⟨hr, hrest⟩ := List.pairwise_cons.mp h
      have hdisjoint : Disjoint r.addresses (covered regions) := by
        rw [Finset.disjoint_left]
        intro x hx hc
        obtain ⟨t, ht, hxt⟩ := mem_covered.mp hc
        exact Finset.disjoint_left.mp (hr t ht).disjoint hx hxt
      rw [covered, Finset.card_union_of_disjoint hdisjoint, r.card_addresses, ih hrest, List.map_cons, List.sum_cons]

theorem sum_size_le {regions : List Region} (hapart : regions.Pairwise Region.Apart)
    (hinside : ∀ r ∈ regions, r.Inside s) : (regions.map Region.size).sum ≤ s.size := by
  rw [← card_covered hapart, ← s.card_addresses]
  apply Finset.card_le_card
  intro x hx
  obtain ⟨r, hr, hxr⟩ := mem_covered.mp hx
  have hrs := hinside r hr
  rw [Region.addresses, Finset.mem_Ico] at hxr ⊢
  exact ⟨hrs.1.trans hxr.1, hxr.2.trans_le hrs.2⟩

end Ak24.Regions
