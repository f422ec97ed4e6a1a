import Ak24.Utf8Boundary

namespace Ak24.Utf8Iteration

open Utf8Model Utf8Validity Utf8Boundary

inductive Structured : List UInt8 → Prop
  | two {a b rest} (ha : 0xC0 ≤ a.toNat ∧ a.toNat < 0xE0) (hb : isContinuationByte b = true) :
      Structured (a :: b :: rest)
  | three {a b c rest} (ha : 0xE0 ≤ a.toNat ∧ a.toNat < 0xF0) (hb : isContinuationByte b = true)
      (hc : isContinuationByte c = true) : Structured (a :: b :: c :: rest)
  | four {a b c d rest} (ha : 0xF0 ≤ a.toNat ∧ a.toNat < 0xF8) (hb : isContinuationByte b = true)
      (hc : isContinuationByte c = true) (hd : isContinuationByte d = true) :
      Structured (a :: b :: c :: d :: rest)

theorem charLen_or_structured (a : UInt8) (rest : List UInt8) :
    akUtf8CharLen (a :: rest) = 1 ∨ Structured (a :: rest) := by
  simp only [akUtf8CharLen, twoByteLead_iff, threeByteLead_iff, fourByteLead_iff, Bool.and_eq_true]
  split_ifs with h1 h2 hc h3 hc h4 hc
  · exact Or.inl rfl
  · obtain ⟨b, tail, rfl, hb⟩ := continuationAt_one hc
    exact Or.inr (.two h2 hb)
  · exact Or.inl rfl
  · obtain ⟨b, tail, rfl, hb⟩ := continuationAt_one hc.1
    obtain ⟨c, tail, rfl, hc'⟩ := continuationAt_one (continuationAt_succ a _ 1 ▸ hc.2)
    exact Or.inr (.three h3 hb hc')
  · exact Or.inl rfl
  · obtain ⟨b, tail, rfl, hb⟩ := continuationAt_one hc.1.1
    obtain ⟨c, tail, rfl, hc'⟩ := continuationAt_one (continuationAt_succ a _ 1 ▸ hc.1.2)
    obtain ⟨d, tail, rfl, hd⟩ := continuationAt_one
      (continuationAt_succ b _ 1 ▸ continuationAt_succ a _ 2 ▸ hc.2)
    exact Or.inr (.four h4 hb hc' hd)
  · exact Or.inl rfl
  · exact Or.inl rfl

theorem Structured.charLen_le {data : List UInt8} (h : Structured data) : akUtf8CharLen data ≤ data.length := by
  rw [← akUtf8Decode_bytes]
  cases h with
  | two ha hb => rw [decode_two ha hb]; simp
  | three ha hb hc => rw [decode_three ha hb hc]; simp
  | four ha hb hc hd => rw [decode_four ha hb hc hd]; simp

theorem charLen_le (data : List UInt8) : akUtf8CharLen data ≤ data.length := by
  cases data with
  | nil => exact le_rfl
  | cons a rest =>
      rcases charLen_or_structured a rest with hone | hs
      · rw [hone, List.length_cons]
        omega
      · exact hs.charLen_le

/-- A lead byte with all its continuation bytes that spells a value it may not:
an overlong form, a surrogate or a value above U+10FFFF. -/
inductive Forbidden : List UInt8 → Prop
  | overlong2 {a b rest} (ha : a.toNat = 0xC0 ∨ a.toNat = 0xC1) (hb : isContinuationByte b = true) :
      Forbidden (a :: b :: rest)
  | overlong3 {a b c rest} (ha : a.toNat = 0xE0) (hb : isContinuationByte b = true) (hlt : b.toNat < 0xA0)
      (hc : isContinuationByte c = true) : Forbidden (a :: b :: c :: rest)
  | surrogate {a b c rest} (ha : a.toNat = 0xED) (hb : isContinuationByte b = true) (hle : 0xA0 ≤ b.toNat)
      (hc : isContinuationByte c = true) : Forbidden (a :: b :: c :: rest)
  | overlong4 {a b c d rest} (ha : a.toNat = 0xF0) (hb : isContinuationByte b = true) (hlt : b.toNat < 0x90)
      (hc : isContinuationByte c = true) (hd : isContinuationByte d = true) :
      Forbidden (a :: b :: c :: d :: rest)
  | tooLarge {a b c d rest}
      (ha : a.toNat = 0xF4 ∧ 0x90 ≤ b.toNat ∨ 0xF5 ≤ a.toNat ∧ a.toNat < 0xF8)
      (hb : isContinuationByte b = true) (hc : isContinuationByte c = true)
      (hd : isContinuationByte d = true) : Forbidden (a :: b :: c :: d :: rest)

theorem Forbidden.invalid {data : List UInt8} (h : Forbidden data) :
    (akUtf8Decode data).valid = false ∧ (akUtf8Decode data).bytes ≠ 1 := by
  cases h with
  | @overlong2 a b rest ha hb =>
      rw [decode_two (by omega) hb]
      have hv : codepoint2 a b = a.toNat % 32 * 64 + b.toNat % 64 := rfl
      have hlt : ¬ 0x80 ≤ codepoint2 a b := by omega
      exact ⟨decide_eq_false hlt, by simp⟩
  | @overlong3 a b c rest ha hb hlt hc =>
      rw [decode_three (by omega) hb hc]
      rw [isContinuationByte_iff] at hb
      have hv : codepoint3 a b c = (a.toNat % 16 * 64 + b.toNat % 64) * 64 + c.toNat % 64 := rfl
      exact ⟨decide_eq_false (by omega), by simp⟩
  | @surrogate a b c rest ha hb hle hc =>
      rw [decode_three (by omega) hb hc]
      rw [isContinuationByte_iff] at hb
      have hv : codepoint3 a b c = (a.toNat % 16 * 64 + b.toNat % 64) * 64 + c.toNat % 64 := rfl
      exact ⟨decide_eq_false (by omega), by simp⟩
  | @overlong4 a b c d rest ha hb hlt hc hd =>
      rw [decode_four (by omega) hb hc hd]
      rw [isContinuationByte_iff] at hb
      have hv : codepoint4 a b c d =
        ((a.toNat % 8 * 64 + b.toNat % 64) * 64 + c.toNat % 64) * 64 + d.toNat % 64 := rfl
      exact ⟨decide_eq_false (by omega), by simp⟩
  | @tooLarge a b c d rest ha hb hc hd =>
      rw [decode_four (by omega) hb hc hd]
      rw [isContinuationByte_iff] at hb
      have hv : codepoint4 a b c d =
        ((a.toNat % 8 * 64 + b.toNat % 64) * 64 + c.toNat % 64) * 64 + d.toNat % 64 := rfl
      exact ⟨decide_eq_false (by omega), by simp⟩

theorem Structured.forbidden {data : List UInt8} (h : Structured data)
    (hv : (akUtf8Decode data).valid = false) : Forbidden data := by
  cases h with
  | @two a b rest ha hb =>
      rw [decode_two ha hb, decide_eq_false_iff_not] at hv
      have hcp : codepoint2 a b = a.toNat % 32 * 64 + b.toNat % 64 := rfl
      exact .overlong2 (by omega) hb
  | @three a b c rest ha hb hc =>
      rw [decode_three ha hb hc, decide_eq_false_iff_not] at hv
      have hb' := (isContinuationByte_iff b).mp hb
      have hcp : codepoint3 a b c = (a.toNat % 16 * 64 + b.toNat % 64) * 64 + c.toNat % 64 := rfl
      by_cases hlow : codepoint3 a b c < 0x800
      · exact .overlong3 (by omega) hb (by omega) hc
      · exact .surrogate (by omega) hb (by omega) hc
  | @four a b c d rest ha hb hc hd =>
      rw [decode_four ha hb hc hd, decide_eq_false_iff_not] at hv
      have hb' := (isContinuationByte_iff b).mp hb
      have hcp : codepoint4 a b c d =
        ((a.toNat % 8 * 64 + b.toNat % 64) * 64 + c.toNat % 64) * 64 + d.toNat % 64 := rfl
      by_cases hlow : codepoint4 a b c d < 0x10000
      · exact .overlong4 (by omega) hb (by omega) hc hd
      · exact .tooLarge (by omega) hb hc hd

/-- The two functions agree on the length of every input, and an invalid input
has length one exactly if it is not a complete sequence of a forbidden value. -/
theorem invalid_single_byte_iff (first : UInt8) (rest : List UInt8) :
    (akUtf8CharLen (first :: rest) = (akUtf8Decode (first :: rest)).bytes ∧
      ((akUtf8Decode (first :: rest)).valid = false → akUtf8CharLen (first :: rest) = 1)) ↔
      ¬ Forbidden (first :: rest) := by
  constructor
  · rintro ⟨hlen, hone⟩ hf
    obtain ⟨hv, hne⟩ := hf.invalid
    exact hne (hlen ▸ hone hv)
  · intro hf
    refine ⟨(akUtf8Decode_bytes _).symm, fun hv => ?_⟩
    rcases charLen_or_structured first rest with hone | hs
    · exact hone
    · exact absurd (hs.forbidden hv) hf

theorem overlong_not_single_byte :
    ¬ (akUtf8CharLen [0xC0, 0x80] = (akUtf8Decode [0xC0, 0x80]).bytes ∧
      ((akUtf8Decode [0xC0, 0x80]).valid = false → akUtf8CharLen [0xC0, 0x80] = 1)) := by decide

theorem skipContinuation_le (data : List UInt8) (left pos : Nat) : skipContinuation data left pos ≤ pos := by
  induction left generalizing pos with
  | zero => exact le_rfl
  | succ left ih =>
      rw [skipContinuation]
      split_ifs with h
      · exact (ih (pos - 1)).trans (Nat.sub_le pos 1)
      · exact le_rfl

theorem akUtf8PrevChar_lt (data : List UInt8) {pos : Nat} (h : 0 < pos) : akUtf8PrevChar data pos < pos := by
  have hle := skipContinuation_le data 3 (pos - 1)
  rw [akUtf8PrevChar, if_neg (by omega)]
  omega

def forwardStops (data : List UInt8) (pos : Nat) : List Nat :=
  if _h : pos < data.length then
    pos :: forwardStops data (pos + akUtf8CharLen (data.drop pos))
  else [pos]
termination_by data.length - pos
decreasing_by
  have hpos : 0 < akUtf8CharLen (data.drop pos) := akUtf8CharLen_pos (by rw [List.length_drop]; omega)
  omega

def backwardStops (data : List UInt8) (pos : Nat) : List Nat :=
  if _h : 0 < pos then pos :: backwardStops data (akUtf8PrevChar data pos) else [pos]
termination_by pos
decreasing_by exact akUtf8PrevChar_lt data _h

theorem charLen_encodeChar (c : Char) (rest : List UInt8) :
    akUtf8CharLen (String.utf8EncodeChar c ++ rest) = c.utf8Size := by
  rw [← akUtf8Decode_bytes, decode_utf8EncodeChar]

theorem length_encode_concat (l : List Char) (c : Char) :
    (encode (l ++ [c])).length = (encode l).length + c.utf8Size := by
  rw [encode_append, List.length_append, encode_cons, encode_nil, List.append_nil, String.length_utf8EncodeChar]

theorem charLen_at (l : List Char) (c : Char) (r : List Char) :
    akUtf8CharLen ((encode (l ++ c :: r)).drop (encode l).length) = c.utf8Size := by
  rw [encode_append, List.drop_left, encode_cons, charLen_encodeChar]

theorem forwardStops_encode (l r : List Char) :
    forwardStops (encode (l ++ r)) (encode l).length = r.inits.map (fun x => (encode (l ++ x)).length) := by
  induction r generalizing l with
  | nil =>
      rw [forwardStops, dif_neg (by simp)]
      simp
  | cons c r ih =>
      have hpos := c.utf8Size_pos
      rw [forwardStops, dif_pos (by rw [encode_append, encode_cons]; simp [String.length_utf8EncodeChar]; omega),
        charLen_at, ← length_encode_concat]
      have hnext := ih (l ++ [c])
      rw [List.append_assoc, List.singleton_append] at hnext
      rw [hnext, List.inits_cons, List.map_cons, List.map_map]
      simp [Function.comp_def]

theorem skipContinuation_run {data : List UInt8} {p : Nat}
    (hlead : isContinuationByte (data.getD p 0) = false) {k left : Nat} (hk : k ≤ left)
    (hcont : ∀ i, 0 < i → i ≤ k → isContinuationByte (data.getD (p + i) 0) = true) :
    skipContinuation data left (p + k) = p := by
  induction k generalizing left with
  | zero =>
      cases left with
      | zero => rfl
      | succ left => rw [skipContinuation, if_neg (by rw [Nat.add_zero, hlead]; simp), Nat.add_zero]
  | succ k ih =>
      obtain ⟨left, rfl⟩ : ∃ n, left = n + 1 := ⟨left - 1, by omega⟩
      rw [skipContinuation, if_pos ⟨by omega, hcont (k + 1) (by omega) le_rfl⟩,
        show p + (k + 1) - 1 = p + k by omega]
      exact ih (by omega) (fun i hi hik => hcont i hi (by omega))

theorem encodeChar_lead (c : Char) : isContinuationByte ((String.utf8EncodeChar c).getD 0 0) = false := by
  rw [← Bool.not_eq_true, isContinuationByte_iff]
  rcases encodeChar_shape c with ⟨b, hc, hb⟩ | ⟨a, tail, hc, ha, _⟩
  · rw [hc, List.getD_cons_zero]
    omega
  · rw [hc, List.getD_cons_zero]
    omega

theorem encodeChar_tail (c : Char) {i : Nat} (hi : 0 < i) (hlt : i < c.utf8Size) :
    isContinuationByte ((String.utf8EncodeChar c).getD i 0) = true := by
  rw [← String.length_utf8EncodeChar] at hlt
  rcases encodeChar_shape c with ⟨b, hc, _⟩ | ⟨a, tail, hc, _, ht⟩
  · rw [hc, List.length_singleton] at hlt
    omega
  · obtain ⟨i, rfl⟩ : ∃ j, i = j + 1 := ⟨i - 1, by omega⟩
    rw [hc, List.length_cons] at hlt
    rw [hc, List.getD_cons_succ, List.getD_eq_getElem _ _ (by omega)]
    exact ht _ (List.getElem_mem _)

theorem getD_at (l : List Char) (c : Char) (r : List Char) {i : Nat} (hi : i < c.utf8Size) :
    (encode (l ++ c :: r)).getD ((encode l).length + i) 0 = (String.utf8EncodeChar c).getD i 0 := by
  rw [encode_append, List.getD_append_right _ _ _ _ (by omega), Nat.add_sub_cancel_left, encode_cons,
    List.getD_append _ _ _ _ (by rw [String.length_utf8EncodeChar]; exact hi)]

theorem prevChar_at (l : List Char) (c : Char) (r : List Char) :
    akUtf8PrevChar (encode (l ++ c :: r)) ((encode l).length + c.utf8Size) = (encode l).length := by
  have hpos := c.utf8Size_pos
  have hle := c.utf8Size_le_four
  have hlead : isContinuationByte ((encode (l ++ c :: r)).getD (encode l).length 0) = false := by
    have h := getD_at l c r hpos
    rw [Nat.add_zero] at h
    rw [h]
    exact encodeChar_lead c
  rw [akUtf8PrevChar, if_neg (by omega),
    show (encode l).length + c.utf8Size - 1 = (encode l).length + (c.utf8Size - 1) by omega]
  refine skipContinuation_run hlead (by omega) (fun i hi hik => ?_)
  rw [getD_at l c r (by omega)]
  exact encodeChar_tail c hi (by omega)

theorem backwardStops_encode (l r : List Char) :
    backwardStops (encode (l ++ r)) (encode l).length =
      (l.inits.map (fun x => (encode x).length)).reverse := by
  induction l using List.reverseRecOn generalizing r with
  | nil =>
      rw [backwardStops, dif_neg (by simp)]
      simp
  | append_singleton l c ih =>
      have hpos := c.utf8Size_pos
      rw [List.append_assoc, List.singleton_append, backwardStops, length_encode_concat, dif_pos (by omega),
        prevChar_at, ih, List.inits_append]
      simp [length_encode_concat]

/-- On a valid sequence a step back undoes a step forward at every boundary, so
the backward loop stands exactly where the forward loop did, in reverse. -/
theorem prevChar_inverts_charLen (data : List UInt8) (hvalid : akUtf8Validate data = true) :
    (∀ p, Boundary data p → p < data.length →
      akUtf8PrevChar data (p + akUtf8CharLen (data.drop p)) = p) ∧
    backwardStops data data.length = (forwardStops data 0).reverse ∧
    (∀ p, p ∈ forwardStops data 0 ↔ Boundary data p) ∧
    (backwardStops data data.length).getLast? = some 0 := by
  have hback {cs : List Char} : backwardStops (encode cs) (encode cs).length =
      (forwardStops (encode cs) 0).reverse := by
    have hb := backwardStops_encode cs []
    have hf := forwardStops_encode [] cs
    rw [List.append_nil] at hb
    simp only [encode_nil, List.nil_append, List.length_nil] at hf
    rw [hb, hf]
  obtain ⟨cs, rfl⟩ := exists_encode_of_validate hvalid
  have hf := forwardStops_encode [] cs
  simp only [encode_nil, List.nil_append, List.length_nil] at hf
  refine ⟨?_, hback, ?_, ?_⟩
  · rintro p ⟨l, r, he, rfl⟩ hlt
    cases r with
    | nil => rw [← he, List.append_nil] at hlt; omega
    | cons c r => rw [← he, charLen_at, prevChar_at]
  · intro p
    rw [hf, List.mem_map]
    constructor
    · rintro ⟨l, hl, rfl⟩
      obtain ⟨r, rfl⟩ := List.mem_inits _ _ |>.mp hl
      exact ⟨l, r, rfl, rfl⟩
    · rintro ⟨l, r, he, rfl⟩
      exact ⟨l, List.mem_inits _ _ |>.mpr ⟨r, encode_injective he⟩, rfl⟩
  · rw [hback, List.getLast?_reverse, hf]
    cases cs <;> rfl

theorem prevChar_inverts_charLen_mixed :
    backwardStops [0x61, 0xC3, 0xA9, 0xE2, 0x82, 0xAC] 6 =
      (forwardStops [0x61, 0xC3, 0xA9, 0xE2, 0x82, 0xAC] 0).reverse :=
  (prevChar_inverts_charLen [0x61, 0xC3, 0xA9, 0xE2, 0x82, 0xAC]
    (validate_encode ['a', Char.ofNat 0xE9, Char.ofNat 0x20AC])).2.1

end Ak24.Utf8Iteration
