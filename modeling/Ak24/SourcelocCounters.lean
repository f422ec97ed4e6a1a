import Ak24.SourcelocModel
import Ak24.Utf8Iteration

namespace Ak24.SourcelocCounters

open Utf8Model Utf8Validity SourcelocModel

def Followed (bytes : List UInt8) (i : Nat) (c : UInt8) : Prop :=
  ∀ k, 0 < k → k < leadWidth c → continuationAt bytes (i + k) = true

/-- Every lead byte before the first NUL is followed, unless it is the last byte
of all. Stray continuation bytes and bytes that lead nothing are free. -/
def Led (bytes : List UInt8) : Prop :=
  ∀ i c, i < (bytes.takeWhile (· ≠ 0)).length → bytes[i]? = some c → i + 1 = bytes.length ∨ Followed bytes i c

theorem leadWidth_pos (c : UInt8) : 0 < leadWidth c := by
  rw [leadWidth]
  split_ifs <;> omega

theorem utf8Strlen_cons {c : UInt8} (rest : List UInt8) (h : c ≠ 0) :
    utf8Strlen (c :: rest) = 1 + utf8Strlen (rest.drop (leadWidth c - 1)) := by
  rw [utf8Strlen, if_neg h]

theorem charCount_cons (c : UInt8) (rest : List UInt8) :
    akUtf8CharCount (c :: rest) = 1 + akUtf8CharCount (rest.drop (akUtf8CharLen (c :: rest) - 1)) := by
  have hpos : 0 < akUtf8CharLen (c :: rest) := akUtf8CharLen_pos (Nat.succ_pos _)
  obtain ⟨n, hn⟩ := Nat.exists_eq_succ_of_ne_zero hpos.ne'
  rw [akUtf8CharCount, if_pos (show 0 < (c :: rest).length from Nat.succ_pos _)]
  simp only [hn, Nat.succ_ne_zero, dite_false, Nat.succ_eq_add_one, List.drop_succ_cons, Nat.add_sub_cancel]

theorem charCount_nil : akUtf8CharCount [] = 0 := by rw [akUtf8CharCount]; rfl

theorem charLen_of_followed {c : UInt8} {rest : List UInt8} (h : Followed (c :: rest) 0 c) :
    akUtf8CharLen (c :: rest) = leadWidth c := by
  have hk (k : Nat) (hpos : 0 < k) (hlt : k < leadWidth c) : continuationAt (c :: rest) k = true := by
    have := h k hpos hlt
    rwa [Nat.zero_add] at this
  rw [leadWidth] at hk
  simp only [akUtf8CharLen, leadWidth]
  split_ifs at hk ⊢ with h1 h2 hc h3 hc h4 hc <;> first | rfl | skip
  · exact absurd (hk 1 (by omega) (by omega)) hc
  · rw [hk 1 (by omega) (by omega), hk 2 (by omega) (by omega)] at hc
    exact absurd rfl hc
  · rw [hk 1 (by omega) (by omega), hk 2 (by omega) (by omega), hk 3 (by omega) (by omega)] at hc
    exact absurd rfl hc

theorem mem_of_continuationAt {bytes : List UInt8} {i : Nat} (h : continuationAt bytes i = true) :
    ∃ b, bytes[i]? = some b ∧ b ≠ 0 := by
  rw [continuationAt] at h
  split at h
  · next b hb =>
      refine ⟨b, hb, ?_⟩
      rintro rfl
      exact absurd h (by decide)
  · exact absurd h Bool.false_ne_true

theorem Followed.split {c : UInt8} {rest : List UInt8} (h : Followed (c :: rest) 0 c) :
    ∃ cont tail, rest = cont ++ tail ∧ cont.length + 1 = leadWidth c ∧ ∀ b ∈ cont, b ≠ 0 := by
  have hrest (k : Nat) (hlt : k + 1 < leadWidth c) : ∃ b, rest[k]? = some b ∧ b ≠ 0 := by
    have hk := h (k + 1) (Nat.succ_pos k) hlt
    rw [Nat.zero_add, continuationAt_succ] at hk
    exact mem_of_continuationAt hk
  have hpos := leadWidth_pos c
  have hlen : leadWidth c - 1 ≤ rest.length := by
    by_contra hshort
    obtain ⟨b, hb, -⟩ := hrest (leadWidth c - 2) (by omega)
    have := (List.getElem?_eq_some_iff.mp hb).1
    omega
  refine ⟨rest.take (leadWidth c - 1), rest.drop (leadWidth c - 1), (List.take_append_drop _ _).symm, ?_, ?_⟩
  · rw [List.length_take]
    omega
  · intro b hb
    obtain ⟨k, hk, rfl⟩ := List.mem_take_iff_getElem.mp hb
    obtain ⟨b, hb', hne⟩ := hrest k (by omega)
    rw [List.getElem?_eq_getElem (by omega)] at hb'
    rwa [Option.some.inj hb']

theorem Led.drop {front tail : List UInt8} (h : Led (front ++ tail)) (hfront : ∀ b ∈ front, b ≠ 0) : Led tail := by
  intro i c hi hc
  have htake : (front ++ tail).takeWhile (· ≠ 0) = front ++ tail.takeWhile (· ≠ 0) :=
    List.takeWhile_append_of_pos fun b hb => decide_eq_true (hfront b hb)
  have hget (k : Nat) : (front ++ tail)[front.length + k]? = tail[k]? := by
    rw [List.getElem?_append_right (Nat.le_add_right _ _), Nat.add_sub_cancel_left]
  rcases h (front.length + i) c (by rw [htake, List.length_append]; omega) ((hget i).trans hc) with hlast | hf
  · rw [List.length_append] at hlast
    exact Or.inl (by omega)
  · refine Or.inr fun k hpos hlt => ?_
    have hk := hf k hpos hlt
    rw [continuationAt, Nat.add_assoc, hget] at hk
    exact hk

/-- The utf8 module counts what `utf8_strlen` counts and then goes on after the
first NUL. -/
theorem charCount_eq {bytes : List UInt8} (h : Led bytes) :
    utf8Strlen bytes = akUtf8CharCount (bytes.takeWhile (· ≠ 0)) ∧
      akUtf8CharCount bytes = utf8Strlen bytes + akUtf8CharCount (bytes.dropWhile (· ≠ 0)) := by
  induction bytes using utf8Strlen.induct with
  | case1 => rw [utf8Strlen, List.takeWhile_nil, List.dropWhile_nil, charCount_nil]; exact ⟨rfl, rfl⟩
  | case2 rest =>
      rw [utf8Strlen, if_pos rfl, List.takeWhile_cons_of_neg (by decide), List.dropWhile_cons_of_neg (by decide),
        charCount_nil, Nat.zero_add]
      exact ⟨rfl, rfl⟩
  | case3 c rest hne ih =>
      have hc : decide (c ≠ 0) = true := decide_eq_true hne
      have htake : (c :: rest).takeWhile (· ≠ 0) = c :: rest.takeWhile (· ≠ 0) := List.takeWhile_cons_of_pos hc
      have hdrop : (c :: rest).dropWhile (· ≠ 0) = rest.dropWhile (· ≠ 0) := List.dropWhile_cons_of_pos hc
      rw [htake, hdrop]
      rcases h 0 c (by rw [htake]; exact Nat.succ_pos _) rfl with hlast | hf
      · -- The last byte of all counts one for both, whatever it announces.
        obtain rfl : rest = [] := List.length_eq_zero_iff.mp (by rw [List.length_cons] at hlast; omega)
        rw [utf8Strlen_cons _ hne, List.takeWhile_nil, List.dropWhile_nil, charCount_cons, List.drop_nil,
          List.drop_nil, charCount_nil, utf8Strlen]
        exact ⟨rfl, rfl⟩
      · obtain ⟨cont, tail, rfl, hlen, hcont⟩ := hf.split
        have hpos (b : UInt8) (hb : b ∈ cont) : decide (b ≠ 0) = true := decide_eq_true (hcont b hb)
        have hw : leadWidth c - 1 = cont.length := by omega
        rw [hw, List.drop_left] at ih
        have hled : Led ((c :: cont) ++ tail) := h
        obtain ⟨ih₁, ih₂⟩ := ih (hled.drop (List.forall_mem_cons.mpr ⟨hne, hcont⟩))
        have hf' : Followed (c :: (cont ++ tail.takeWhile (· ≠ 0))) 0 c := by
          intro k hk hlt
          have hk' := hf k hk hlt
          rw [Nat.zero_add, continuationAt, ← List.cons_append, List.getElem?_append_left (by simp; omega)] at hk' ⊢
          exact hk'
        rw [List.takeWhile_append_of_pos hpos, List.dropWhile_append_of_pos hpos, utf8Strlen_cons _ hne,
          charCount_cons c (cont ++ tail), charCount_cons, charLen_of_followed hf, charLen_of_followed hf', hw,
          List.drop_left, List.drop_left, ← ih₁, ih₂]
        exact ⟨rfl, by omega⟩

theorem charCount_pos {bytes : List UInt8} (h : bytes ≠ []) : 0 < akUtf8CharCount bytes := by
  obtain ⟨c, rest, rfl⟩ := List.exists_cons_of_ne_nil h
  rw [charCount_cons]
  omega

/-- Where every lead byte before the first NUL is followed by what it announces,
`utf8_strlen` counts the bytes before that NUL as the utf8 module does, and the two
counters agree exactly on text without a NUL. -/
theorem utf8Strlen_eq_charCount (bytes : List UInt8) (h : Led bytes) :
    utf8Strlen bytes = akUtf8CharCount (bytes.takeWhile (· ≠ 0)) ∧
      (utf8Strlen bytes = akUtf8CharCount bytes ↔ 0 ∉ bytes) := by
  obtain ⟨hfront, hall⟩ := charCount_eq h
  refine ⟨hfront, fun heq hmem => ?_, fun hfree => ?_⟩
  · have hrest : bytes.dropWhile (· ≠ 0) ≠ [] := by
      intro hnil
      have hnz := List.dropWhile_eq_nil_iff.mp hnil 0 hmem
      exact absurd hnz (by decide)
    have := charCount_pos hrest
    omega
  · have hrest : bytes.dropWhile (· ≠ 0) = [] := by
      rw [List.dropWhile_eq_nil_iff]
      intro b hb
      exact decide_eq_true fun he => hfree (he ▸ hb)
    rw [hall, hrest, charCount_nil, Nat.add_zero]

/-- A stray continuation byte and an overlong form. -/
theorem utf8Strlen_eq_charCount_malformed :
    utf8Strlen [0xA9, 0xC0, 0x80] = akUtf8CharCount [0xA9, 0xC0, 0x80] := by
  refine (utf8Strlen_eq_charCount [0xA9, 0xC0, 0x80] ?_).2.mpr (by decide)
  intro i c hi hc
  have hlt : i < 3 := (List.getElem?_eq_some_iff.mp hc).1
  right
  intro k hk hw
  interval_cases i
  · obtain rfl : 0xA9 = c := Option.some.inj hc
    exact absurd hw (by rw [show leadWidth 0xA9 = 1 from by decide]; omega)
  · obtain rfl : 0xC0 = c := Option.some.inj hc
    rw [show leadWidth 0xC0 = 2 from by decide] at hw
    obtain rfl : k = 1 := by omega
    decide
  · obtain rfl : 0x80 = c := Option.some.inj hc
    exact absurd hw (by rw [show leadWidth 0x80 = 1 from by decide]; omega)

/-- The counters differ after a NUL, on a lead byte without its continuation byte
and on a character that the end cuts short. -/
theorem utf8Strlen_ne_charCount :
    utf8Strlen [0x41, 0x00, 0x42] ≠ akUtf8CharCount [0x41, 0x00, 0x42] ∧
      utf8Strlen [0xC3, 0x41] ≠ akUtf8CharCount [0xC3, 0x41] ∧
      utf8Strlen [0xE2, 0x82] ≠ akUtf8CharCount [0xE2, 0x82] := by
  have hA : leadWidth 0x41 = 1 := by decide
  have hC3 : leadWidth 0xC3 = 2 := by decide
  have hE2 : leadWidth 0xE2 = 3 := by decide
  have hlen : akUtf8CharLen [0x41, 0x00, 0x42] = 1 ∧ akUtf8CharLen [0x00, 0x42] = 1 ∧
      akUtf8CharLen [0xC3, 0x41] = 1 ∧ akUtf8CharLen [0xE2, 0x82] = 1 := by decide
  refine ⟨?_, ?_, ?_⟩
  · simp [utf8Strlen, charCount_cons, charCount_nil, hA, hlen]
  · simp [utf8Strlen, charCount_cons, charCount_nil, hC3, hlen]
  · simp [utf8Strlen, charCount_cons, charCount_nil, hE2, hlen]

end Ak24.SourcelocCounters
