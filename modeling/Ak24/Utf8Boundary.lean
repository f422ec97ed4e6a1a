import Ak24.Utf8Validity

namespace Ak24.Utf8Boundary

open Utf8Model Utf8Validity

/-- A position of a valid sequence that separates two of its characters. -/
def Boundary (buf : List UInt8) (pos : Nat) : Prop :=
  ∃ l r : List Char, encode (l ++ r) = buf ∧ (encode l).length = pos

theorem encode_append (l r : List Char) : encode (l ++ r) = encode l ++ encode r := by
  simp [encode]

theorem Boundary.le_length {buf : List UInt8} {pos : Nat} (h : Boundary buf pos) : pos ≤ buf.length := by
  obtain ⟨l, r, rfl, rfl⟩ := h
  simp [encode_append]

theorem Boundary.valid {buf : List UInt8} {pos : Nat} (h : Boundary buf pos) :
    ∃ cs, encode cs = buf := by
  obtain ⟨l, r, h, _⟩ := h
  exact ⟨l ++ r, h⟩

theorem Boundary.next {buf : List UInt8} {pos : Nat} (h : Boundary buf pos) (hlt : pos < buf.length) :
    ∃ c rest, buf.drop pos = String.utf8EncodeChar c ++ rest ∧ Boundary buf (pos + c.utf8Size) := by
  obtain ⟨l, r, rfl, rfl⟩ := h
  cases r with
  | nil => simp at hlt
  | cons c r =>
      refine ⟨c, encode r, ?_, l ++ [c], r, by simp, ?_⟩
      · rw [encode_append, List.drop_left, encode_cons]
      · rw [encode_append, List.length_append, encode_cons, encode_nil, List.append_nil,
          String.length_utf8EncodeChar]

theorem encodeChar_shape (c : Char) :
    (∃ b, String.utf8EncodeChar c = [b] ∧ b.toNat < 0x80) ∨
      ∃ a tail, String.utf8EncodeChar c = a :: tail ∧ 0xC0 ≤ a.toNat ∧
        ∀ b ∈ tail, isContinuationByte b = true := by
  unfold String.utf8EncodeChar
  simp only
  split_ifs with h1 h2 h3
  · exact Or.inl ⟨_, rfl, by rw [UInt8.toNat_ofNat']; omega⟩
  · refine Or.inr ⟨_, _, rfl, by rw [UInt8.toNat_ofNat']; omega, ?_⟩
    simp only [List.forall_mem_cons, isContinuationByte_ofNat, List.not_mem_nil, IsEmpty.forall_iff,
      implies_true, and_self]
  · refine Or.inr ⟨_, _, rfl, by rw [UInt8.toNat_ofNat']; omega, ?_⟩
    simp only [List.forall_mem_cons, isContinuationByte_ofNat, List.not_mem_nil, IsEmpty.forall_iff,
      implies_true, and_self]
  · refine Or.inr ⟨_, _, rfl, by rw [UInt8.toNat_ofNat']; omega, ?_⟩
    simp only [List.forall_mem_cons, isContinuationByte_ofNat, List.not_mem_nil, IsEmpty.forall_iff,
      implies_true, and_self]

theorem locate (cs : List Char) {pos : Nat} (h : pos < (encode cs).length) :
    ∃ l c r i, cs = l ++ c :: r ∧ pos = (encode l).length + i ∧ i < (String.utf8EncodeChar c).length ∧
      (encode cs).getD pos 0 = (String.utf8EncodeChar c).getD i 0 := by
  induction cs generalizing pos with
  | nil => simp at h
  | cons c cs ih =>
      rw [encode_cons] at h ⊢
      by_cases hp : pos < (String.utf8EncodeChar c).length
      · refine ⟨[], c, cs, pos, rfl, by simp, hp, ?_⟩
        rw [List.getD_append _ _ _ _ hp]
      · rw [List.length_append] at h
        have hlt : pos - (String.utf8EncodeChar c).length < (encode cs).length := by omega
        obtain ⟨l, d, r, i, rfl, hpos, hi, hb⟩ := ih hlt
        refine ⟨c :: l, d, r, i, rfl, by rw [encode_cons, List.length_append]; omega, hi, ?_⟩
        rw [List.getD_append_right _ _ _ _ (by omega), hb]

theorem boundary_of_split {buf : List UInt8} {l r : List Char} (h : encode (l ++ r) = buf) :
    Boundary buf (encode l).length := ⟨l, r, h, rfl⟩

theorem ascii_boundary {cs : List Char} {pos : Nat} (h : pos < (encode cs).length)
    (hb : ((encode cs).getD pos 0).toNat < 0x80) :
    Boundary (encode cs) pos ∧ Boundary (encode cs) (pos + 1) := by
  obtain ⟨l, c, r, i, rfl, rfl, hi, he⟩ := locate cs h
  rw [he] at hb
  rcases encodeChar_shape c with ⟨b, hc, _⟩ | ⟨a, tail, hc, ha, ht⟩
  · rw [hc, List.length_singleton] at hi
    obtain rfl : i = 0 := by omega
    refine ⟨boundary_of_split rfl, l ++ [c], r, by simp, ?_⟩
    rw [encode_append, List.length_append, encode_cons, hc]
    rfl
  · exfalso
    rw [hc] at hb hi
    cases i with
    | zero => simp at hb; omega
    | succ i =>
        rw [List.getD_cons_succ] at hb
        have hm : tail.getD i 0 ∈ tail := by
          rw [List.getD_eq_getElem _ _ (by simpa using hi)]
          exact List.getElem_mem _
        have hcont := (isContinuationByte_iff _).mp (ht _ hm)
        omega

theorem continuation_after_lead {buf : List UInt8} {pos : Nat} {c : Char}
    {rest : List UInt8} (hd : buf.drop pos = String.utf8EncodeChar c ++ rest) (hs : c.utf8Size ≠ 1) :
    pos + 1 < buf.length ∧ isContinuationByte (buf.getD (pos + 1) 0) = true := by
  rcases encodeChar_shape c with ⟨b, hc, _⟩ | ⟨a, tail, hc, _, ht⟩
  · rw [← String.length_utf8EncodeChar, hc] at hs
    exact absurd rfl hs
  · rw [hc] at hd
    cases tail with
    | nil =>
        rw [← String.length_utf8EncodeChar, hc] at hs
        exact absurd rfl hs
    | cons b tail =>
        have hl := congrArg List.length hd
        simp only [List.length_drop, List.length_append, List.length_cons] at hl
        have hb : buf.getD (pos + 1) 0 = b := by
          have hg : (buf.drop pos).getD 1 0 = b := by rw [hd]; rfl
          simpa [List.getD_eq_getElem?_getD] using hg
        exact ⟨by omega, hb ▸ ht b (by simp)⟩

theorem decode_continuation {data : List UInt8} {b : UInt8} {rest : List UInt8} (hd : data = b :: rest)
    (hb : isContinuationByte b = true) : (akUtf8Decode data).valid = false := by
  rw [isContinuationByte_iff] at hb
  by_contra h
  have ha := accepted_of_valid (by simpa using h)
  subst hd
  cases ha with
  | one ha | two ha _ _ | three ha _ _ _ | four ha _ _ _ _ => omega

end Ak24.Utf8Boundary
