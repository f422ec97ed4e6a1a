import Mathlib

namespace Ak24.Records

variable {α : Type}

structure IsRecord (delim s : List α) (n : Nat) : Prop where
  le_length : n ≤ s.length
  ends : delim <:+ s.take n
  first : ∀ m < n, ¬ delim <:+ s.take m

theorem IsRecord.unique {delim s : List α} {m n : Nat} (hm : IsRecord delim s m) (hn : IsRecord delim s n) :
    m = n := by
  rcases Nat.lt_trichotomy m n with h | h | h
  · exact absurd hm.ends (hn.first m h)
  · exact h
  · exact absurd hn.ends (hm.first n h)

theorem IsRecord.pos {delim s : List α} {n : Nat} (hd : delim ≠ []) (h : IsRecord delim s n) : 0 < n := by
  rcases Nat.eq_zero_or_pos n with rfl | hn
  · exact absurd (List.suffix_nil.mp (by simpa using h.ends)) hd
  · exact hn

theorem IsRecord.length_le {delim s : List α} {n : Nat} (h : IsRecord delim s n) : delim.length ≤ n :=
  h.ends.length_le.trans (by simp)

theorem IsRecord.take {delim s : List α} {n c : Nat} (h : IsRecord delim s n) (hc : n ≤ c) :
    IsRecord delim (s.take c) n := by
  have hs := h.le_length
  refine ⟨by rw [List.length_take]; omega, ?_, ?_⟩
  · rw [List.take_take, Nat.min_eq_left hc]
    exact h.ends
  · intro m hm
    rw [List.take_take, Nat.min_eq_left (by omega)]
    exact h.first m hm

theorem IsRecord.append {delim s : List α} {n : Nat} (h : IsRecord delim s n) (t : List α) :
    IsRecord delim (s ++ t) n := by
  have hle := h.le_length
  refine ⟨by rw [List.length_append]; omega, ?_, fun m hm => ?_⟩
  · rw [List.take_append_of_le_length hle]
    exact h.ends
  · rw [List.take_append_of_le_length (by omega)]
    exact h.first m hm

theorem IsRecord.not_in_shorter {delim s : List α} {n m c : Nat} (h : IsRecord delim s n) (hc : c < n)
    (hm : IsRecord delim (s.take c) m) : False := by
  have hle : m ≤ c := hm.le_length.trans (List.length_take_le c s)
  have := hm.ends
  rw [List.take_take, Nat.min_eq_left hle] at this
  exact h.first m (by omega) this

def skip : List (List α) → Nat → List (List α)
  | [], _ => []
  | piece :: pieces, n => if piece.length ≤ n then skip pieces (n - piece.length) else piece.drop n :: pieces

theorem skip_zero {pieces : List (List α)} (h : ∀ piece ∈ pieces, piece ≠ []) : skip pieces 0 = pieces := by
  cases pieces with
  | nil => rfl
  | cons piece pieces =>
      have := List.length_pos_iff.mpr (h piece (by simp))
      rw [skip, if_neg (by omega), List.drop_zero]

theorem flatten_skip (pieces : List (List α)) (n : Nat) : (skip pieces n).flatten = pieces.flatten.drop n := by
  induction pieces generalizing n with
  | nil => simp [skip]
  | cons piece pieces ih =>
      rw [skip, List.flatten_cons, List.drop_append]
      split_ifs with h
      · rw [ih, List.drop_eq_nil_of_le h, List.nil_append]
      · rw [Nat.sub_eq_zero_of_le (by omega), List.drop_zero, List.flatten_cons]

variable [DecidableEq α]

def recordEnd (delim s : List α) : Option Nat :=
  (List.range (s.length + 1)).find? fun n => decide (delim <:+ s.take n)

theorem recordEnd_some {delim s : List α} {n : Nat} : recordEnd delim s = some n ↔ IsRecord delim s n := by
  rw [recordEnd, List.find?_range_eq_some]
  simp only [decide_eq_true_eq, List.mem_range, Bool.not_eq_true', decide_eq_false_iff_not]
  exact ⟨fun ⟨he, hl, hf⟩ => ⟨Nat.lt_succ_iff.mp hl, he, hf⟩,
    fun h => ⟨h.ends, Nat.lt_succ_of_le h.le_length, h.first⟩⟩

/-- The consecutive records of a stream, each ending with the delimiter. What
follows the last delimiter is not a record. -/
def records (delim s : List α) : List (List α) :=
  match recordEnd delim s with
  | none => []
  | some n => if 0 < n ∧ n ≤ s.length then s.take n :: records delim (s.drop n) else []
  termination_by s.length

theorem isRecord_of_records {delim s r : List α} {rs : List (List α)} (h : records delim s = r :: rs) :
    ∃ n, IsRecord delim s n ∧ r = s.take n ∧ rs = records delim (s.drop n) := by
  rw [records] at h
  cases he : recordEnd delim s with
  | none => simp [he] at h
  | some n =>
      simp only [he] at h
      split_ifs at h
      cases h
      exact ⟨n, recordEnd_some.mp he, rfl, rfl⟩

end Ak24.Records
