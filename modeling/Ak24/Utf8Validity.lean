import Ak24.Utf8Model

namespace Ak24.Utf8Validity

open Utf8Model

def encode (scalars : List Char) : List UInt8 := scalars.flatMap String.utf8EncodeChar

def decodeWalk (data : List UInt8) : List Nat :=
  if 0 < data.length then
    if _h : (akUtf8Decode data).bytes = 0 then []
    else (akUtf8Decode data).codepoint :: decodeWalk (data.drop (akUtf8Decode data).bytes)
  else []
termination_by data.length
decreasing_by simp only [List.length_drop]; omega

theorem ascii_iff : ∀ b : UInt8, b &&& 0x80 = 0 ↔ b.toNat < 0x80 := by decide +kernel

theorem twoByteLead_iff : ∀ b : UInt8, b &&& 0xE0 = 0xC0 ↔ 0xC0 ≤ b.toNat ∧ b.toNat < 0xE0 := by
  decide +kernel

theorem threeByteLead_iff : ∀ b : UInt8, b &&& 0xF0 = 0xE0 ↔ 0xE0 ≤ b.toNat ∧ b.toNat < 0xF0 := by
  decide +kernel

theorem fourByteLead_iff : ∀ b : UInt8, b &&& 0xF8 = 0xF0 ↔ 0xF0 ≤ b.toNat ∧ b.toNat < 0xF8 := by
  decide +kernel

theorem isContinuationByte_iff : ∀ b : UInt8, isContinuationByte b = true ↔ 0x80 ≤ b.toNat ∧ b.toNat < 0xC0 := by
  decide +kernel

theorem or_sixth (a b : Nat) : a <<< 6 ||| b % 64 = a * 64 + b % 64 := by
  have h : b % 64 < 2 ^ 6 := Nat.mod_lt _ (by norm_num)
  rw [Nat.shiftLeft_eq, Nat.mul_comm, ← Nat.two_pow_add_eq_or_of_lt h, Nat.mul_comm]

def codepoint2 (a b : UInt8) : Nat := a.toNat % 32 * 64 + b.toNat % 64

def codepoint3 (a b c : UInt8) : Nat := (a.toNat % 16 * 64 + b.toNat % 64) * 64 + c.toNat % 64

def codepoint4 (a b c d : UInt8) : Nat :=
  ((a.toNat % 8 * 64 + b.toNat % 64) * 64 + c.toNat % 64) * 64 + d.toNat % 64

theorem payload_sixth (data : List UInt8) (i shift : Nat) :
    payload data i 0x3F shift = ((data.getD i 0).toNat % 64) <<< shift := by
  rw [payload, show (0x3F : Nat) = 2 ^ 6 - 1 from rfl, Nat.and_two_pow_sub_one_eq_mod]

theorem payload_or2 (a b : UInt8) (rest : List UInt8) :
    payload (a :: b :: rest) 0 0x1F 6 ||| payload (a :: b :: rest) 1 0x3F 0 = codepoint2 a b := by
  rw [payload_sixth, payload, show (0x1F : Nat) = 2 ^ 5 - 1 from rfl, Nat.and_two_pow_sub_one_eq_mod]
  simp only [List.getD_cons_zero, List.getD_cons_succ, Nat.shiftLeft_zero]
  exact or_sixth _ _

theorem payload_or3 (a b c : UInt8) (rest : List UInt8) :
    payload (a :: b :: c :: rest) 0 0x0F 12 ||| payload (a :: b :: c :: rest) 1 0x3F 6 |||
      payload (a :: b :: c :: rest) 2 0x3F 0 = codepoint3 a b c := by
  rw [payload_sixth, payload_sixth, payload, show (0x0F : Nat) = 2 ^ 4 - 1 from rfl,
    Nat.and_two_pow_sub_one_eq_mod]
  simp only [List.getD_cons_zero, List.getD_cons_succ, Nat.shiftLeft_zero]
  rw [show (12 : Nat) = 6 + 6 from rfl, Nat.shiftLeft_add, ← Nat.shiftLeft_or_distrib,
    or_sixth, or_sixth]
  rfl

theorem payload_or4 (a b c d : UInt8) (rest : List UInt8) :
    payload (a :: b :: c :: d :: rest) 0 0x07 18 ||| payload (a :: b :: c :: d :: rest) 1 0x3F 12 |||
      payload (a :: b :: c :: d :: rest) 2 0x3F 6 ||| payload (a :: b :: c :: d :: rest) 3 0x3F 0 =
      codepoint4 a b c d := by
  rw [payload_sixth, payload_sixth, payload_sixth, payload, show (0x07 : Nat) = 2 ^ 3 - 1 from rfl,
    Nat.and_two_pow_sub_one_eq_mod]
  simp only [List.getD_cons_zero, List.getD_cons_succ, Nat.shiftLeft_zero]
  rw [show (18 : Nat) = 6 + 6 + 6 from rfl, show (12 : Nat) = 6 + 6 from rfl, Nat.shiftLeft_add,
    Nat.shiftLeft_add, Nat.shiftLeft_add, ← Nat.shiftLeft_or_distrib, ← Nat.shiftLeft_or_distrib,
    ← Nat.shiftLeft_or_distrib, or_sixth, or_sixth, or_sixth]
  rfl

theorem decode_one {a : UInt8} (ha : a.toNat < 0x80) (rest : List UInt8) :
    akUtf8Decode (a :: rest) = ⟨a.toNat, 1, true⟩ := by
  simp [akUtf8Decode, ascii_iff, ha]

theorem decode_two {a b : UInt8} (ha : 0xC0 ≤ a.toNat ∧ a.toNat < 0xE0)
    (hb : isContinuationByte b = true) (rest : List UInt8) :
    akUtf8Decode (a :: b :: rest) = ⟨codepoint2 a b, 2, decide (0x80 ≤ codepoint2 a b)⟩ := by
  have h1 : ¬ a.toNat < 0x80 := by omega
  simp only [akUtf8Decode, ascii_iff, twoByteLead_iff, h1, ha, payload_or2]
  simp [continuationAt, hb]

theorem decode_three {a b c : UInt8} (ha : 0xE0 ≤ a.toNat ∧ a.toNat < 0xF0)
    (hb : isContinuationByte b = true) (hc : isContinuationByte c = true) (rest : List UInt8) :
    akUtf8Decode (a :: b :: c :: rest) = ⟨codepoint3 a b c, 3,
      decide (0x800 ≤ codepoint3 a b c ∧ (codepoint3 a b c < 0xD800 ∨ 0xDFFF < codepoint3 a b c))⟩ := by
  have h1 : ¬ a.toNat < 0x80 := by omega
  have h2 : ¬ (0xC0 ≤ a.toNat ∧ a.toNat < 0xE0) := by omega
  simp only [akUtf8Decode, ascii_iff, twoByteLead_iff, threeByteLead_iff, h1, h2, ha, payload_or3]
  simp [continuationAt, hb, hc]

theorem decode_four {a b c d : UInt8} (ha : 0xF0 ≤ a.toNat ∧ a.toNat < 0xF8)
    (hb : isContinuationByte b = true) (hc : isContinuationByte c = true)
    (hd : isContinuationByte d = true) (rest : List UInt8) :
    akUtf8Decode (a :: b :: c :: d :: rest) = ⟨codepoint4 a b c d, 4,
      decide (0x10000 ≤ codepoint4 a b c d ∧ codepoint4 a b c d ≤ 0x10FFFF)⟩ := by
  have h1 : ¬ a.toNat < 0x80 := by omega
  have h2 : ¬ (0xC0 ≤ a.toNat ∧ a.toNat < 0xE0) := by omega
  have h3 : ¬ (0xE0 ≤ a.toNat ∧ a.toNat < 0xF0) := by omega
  simp only [akUtf8Decode, ascii_iff, twoByteLead_iff, threeByteLead_iff, fourByteLead_iff,
    h1, h2, h3, ha, payload_or4]
  simp [continuationAt, hb, hc, hd]

theorem isContinuationByte_ofNat (n : Nat) : isContinuationByte (UInt8.ofNat (n % 64 + 128)) = true := by
  rw [isContinuationByte_iff, UInt8.toNat_ofNat']
  omega

theorem decode_utf8EncodeChar (c : Char) (rest : List UInt8) :
    akUtf8Decode (String.utf8EncodeChar c ++ rest) = ⟨c.toNat, c.utf8Size, true⟩ := by
  have hv : c.toNat < 0xD800 ∨ 0xDFFF < c.toNat ∧ c.toNat < 0x110000 := c.valid
  have hval : c.val.toNat = c.toNat := rfl
  unfold String.utf8EncodeChar
  simp only [hval]
  split_ifs with h1 h2 h3
  · have hs : c.utf8Size = 1 := Char.utf8Size_eq_one_iff.mpr (by simpa [UInt32.le_iff_toNat_le] using h1)
    rw [List.singleton_append, decode_one (by rw [UInt8.toNat_ofNat']; omega), UInt8.toNat_ofNat', hs]
    congr 1
    omega
  · have hs : c.utf8Size = 2 := Char.utf8Size_eq_two_iff.mpr
      (by simp only [UInt32.lt_iff_toNat_lt, UInt32.le_iff_toNat_le, hval]; simp; omega)
    have hcp : codepoint2 (UInt8.ofNat (c.toNat / 64 % 32 + 192)) (UInt8.ofNat (c.toNat % 64 + 128)) = c.toNat := by
      simp only [codepoint2, UInt8.toNat_ofNat']
      omega
    rw [List.cons_append, List.singleton_append,
      decode_two (by rw [UInt8.toNat_ofNat']; omega) (isContinuationByte_ofNat _), hcp, hs]
    simp only [DecodeResult.mk.injEq, decide_eq_true_eq, true_and]
    omega
  · have hs : c.utf8Size = 3 := Char.utf8Size_eq_three_iff.mpr
      (by simp only [UInt32.lt_iff_toNat_lt, UInt32.le_iff_toNat_le, hval]; simp; omega)
    have hcp : codepoint3 (UInt8.ofNat (c.toNat / 4096 % 16 + 224)) (UInt8.ofNat (c.toNat / 64 % 64 + 128))
        (UInt8.ofNat (c.toNat % 64 + 128)) = c.toNat := by
      simp only [codepoint3, UInt8.toNat_ofNat']
      omega
    simp only [List.cons_append, List.nil_append]
    rw [decode_three (by rw [UInt8.toNat_ofNat']; omega) (isContinuationByte_ofNat _)
      (isContinuationByte_ofNat _), hcp, hs]
    simp only [DecodeResult.mk.injEq, decide_eq_true_eq, true_and]
    omega
  · have hs : c.utf8Size = 4 := Char.utf8Size_eq_four_iff.mpr
      (by simp only [UInt32.lt_iff_toNat_lt, hval]; simp; omega)
    have hcp : codepoint4 (UInt8.ofNat (c.toNat / 262144 % 8 + 240)) (UInt8.ofNat (c.toNat / 4096 % 64 + 128))
        (UInt8.ofNat (c.toNat / 64 % 64 + 128)) (UInt8.ofNat (c.toNat % 64 + 128)) = c.toNat := by
      simp only [codepoint4, UInt8.toNat_ofNat']
      omega
    simp only [List.cons_append, List.nil_append]
    rw [decode_four (by rw [UInt8.toNat_ofNat']; omega) (isContinuationByte_ofNat _)
      (isContinuationByte_ofNat _) (isContinuationByte_ofNat _), hcp, hs]
    simp only [DecodeResult.mk.injEq, decide_eq_true_eq, true_and]
    omega

def scalar (n : Nat) (h : n.isValidChar) : Char := Char.ofNatAux n h

theorem scalar_val {n : Nat} (h : n.isValidChar) : (scalar n h).val.toNat = n := by
  simp [scalar, Char.ofNatAux]

theorem continuationAt_one {a : UInt8} {rest : List UInt8} (h : continuationAt (a :: rest) 1 = true) :
    ∃ b tail, rest = b :: tail ∧ isContinuationByte b = true := by
  cases rest with
  | nil => simp [continuationAt] at h
  | cons b tail => exact ⟨b, tail, rfl, by simpa [continuationAt] using h⟩

theorem continuationAt_succ (a : UInt8) (rest : List UInt8) (i : Nat) :
    continuationAt (a :: rest) (i + 1) = continuationAt rest i := by
  simp [continuationAt]

inductive Accepted : List UInt8 → Prop
  | one {a rest} (ha : a.toNat < 0x80) : Accepted (a :: rest)
  | two {a b rest} (ha : 0xC0 ≤ a.toNat ∧ a.toNat < 0xE0) (hb : isContinuationByte b = true)
      (hv : 0x80 ≤ codepoint2 a b) : Accepted (a :: b :: rest)
  | three {a b c rest} (ha : 0xE0 ≤ a.toNat ∧ a.toNat < 0xF0) (hb : isContinuationByte b = true)
      (hc : isContinuationByte c = true) (hv : 0x800 ≤ codepoint3 a b c ∧
        (codepoint3 a b c < 0xD800 ∨ 0xDFFF < codepoint3 a b c)) : Accepted (a :: b :: c :: rest)
  | four {a b c d rest} (ha : 0xF0 ≤ a.toNat ∧ a.toNat < 0xF8) (hb : isContinuationByte b = true)
      (hc : isContinuationByte c = true) (hd : isContinuationByte d = true)
      (hv : 0x10000 ≤ codepoint4 a b c d ∧ codepoint4 a b c d ≤ 0x10FFFF) :
      Accepted (a :: b :: c :: d :: rest)

theorem accepted_of_valid {data : List UInt8} (h : (akUtf8Decode data).valid = true) : Accepted data := by
  cases data with
  | nil => simp [akUtf8Decode] at h
  | cons a rest =>
      by_cases h1 : a.toNat < 0x80
      · exact .one h1
      by_cases h2 : 0xC0 ≤ a.toNat ∧ a.toNat < 0xE0
      · by_cases hc : continuationAt (a :: rest) 1 = true
        · obtain ⟨b, tail, rfl, hb⟩ := continuationAt_one hc
          rw [decode_two h2 hb] at h
          exact .two h2 hb (by simpa using h)
        · simp [akUtf8Decode, ascii_iff, twoByteLead_iff, h1, h2, hc] at h
      by_cases h3 : 0xE0 ≤ a.toNat ∧ a.toNat < 0xF0
      · by_cases hc : continuationAt (a :: rest) 1 = true ∧ continuationAt (a :: rest) 2 = true
        · obtain ⟨b, tail, rfl, hb⟩ := continuationAt_one hc.1
          obtain ⟨c, tail, rfl, hc'⟩ := continuationAt_one (continuationAt_succ a _ 1 ▸ hc.2)
          rw [decode_three h3 hb hc'] at h
          exact .three h3 hb hc' (by simpa using h)
        · simp [akUtf8Decode, ascii_iff, twoByteLead_iff, threeByteLead_iff, h1, h2, h3, hc] at h
      by_cases h4 : 0xF0 ≤ a.toNat ∧ a.toNat < 0xF8
      · by_cases hc : (continuationAt (a :: rest) 1 = true ∧ continuationAt (a :: rest) 2 = true) ∧
            continuationAt (a :: rest) 3 = true
        · obtain ⟨b, tail, rfl, hb⟩ := continuationAt_one hc.1.1
          obtain ⟨c, tail, rfl, hc'⟩ := continuationAt_one (continuationAt_succ a _ 1 ▸ hc.1.2)
          obtain ⟨d, tail, rfl, hd⟩ := continuationAt_one
            (continuationAt_succ b _ 1 ▸ continuationAt_succ a _ 2 ▸ hc.2)
          rw [decode_four h4 hb hc' hd] at h
          exact .four h4 hb hc' hd (by simpa using h)
        · simp [akUtf8Decode, ascii_iff, twoByteLead_iff, threeByteLead_iff, fourByteLead_iff,
            h1, h2, h3, h4, hc] at h
      simp [akUtf8Decode, ascii_iff, twoByteLead_iff, threeByteLead_iff, fourByteLead_iff, h1, h2, h3, h4] at h

theorem ofNat_eq_of_toNat {b : UInt8} {n : Nat} (h : b.toNat = n) : UInt8.ofNat n = b := by
  rw [← h, UInt8.ofNat_toNat]

theorem Accepted.exists_char {data : List UInt8} (h : Accepted data) :
    ∃ c rest, data = String.utf8EncodeChar c ++ rest := by
  cases h with
  | @one a rest ha =>
      refine ⟨scalar a.toNat (Or.inl (by omega)), rest, ?_⟩
      simp only [String.utf8EncodeChar, scalar_val, show a.toNat ≤ 127 by omega, if_true,
        UInt8.ofNat_toNat, List.singleton_append]
  | @two a b rest ha hb hv =>
      rw [isContinuationByte_iff] at hb
      have hcp : codepoint2 a b = a.toNat % 32 * 64 + b.toNat % 64 := rfl
      refine ⟨scalar (codepoint2 a b) (Or.inl (by omega)), rest, ?_⟩
      simp only [String.utf8EncodeChar, scalar_val]
      rw [if_neg (by omega), if_pos (by omega), ofNat_eq_of_toNat (b := a) (by omega),
        ofNat_eq_of_toNat (b := b) (by omega)]
      rfl
  | @three a b c rest ha hb hc hv =>
      rw [isContinuationByte_iff] at hb hc
      have hcp : codepoint3 a b c = (a.toNat % 16 * 64 + b.toNat % 64) * 64 + c.toNat % 64 := rfl
      have hvalid : (codepoint3 a b c).isValidChar := by
        rcases hv.2 with h | h
        · exact Or.inl h
        · exact Or.inr ⟨h, by omega⟩
      refine ⟨scalar (codepoint3 a b c) hvalid, rest, ?_⟩
      simp only [String.utf8EncodeChar, scalar_val]
      rw [if_neg (by omega), if_neg (by omega), if_pos (by omega), ofNat_eq_of_toNat (b := a) (by omega),
        ofNat_eq_of_toNat (b := b) (by omega), ofNat_eq_of_toNat (b := c) (by omega)]
      rfl
  | @four a b c d rest ha hb hc hd hv =>
      rw [isContinuationByte_iff] at hb hc hd
      have hcp : codepoint4 a b c d =
        ((a.toNat % 8 * 64 + b.toNat % 64) * 64 + c.toNat % 64) * 64 + d.toNat % 64 := rfl
      refine ⟨scalar (codepoint4 a b c d) (Or.inr ⟨by omega, by omega⟩), rest, ?_⟩
      simp only [String.utf8EncodeChar, scalar_val]
      rw [if_neg (by omega), if_neg (by omega), if_neg (by omega), ofNat_eq_of_toNat (b := a) (by omega),
        ofNat_eq_of_toNat (b := b) (by omega), ofNat_eq_of_toNat (b := c) (by omega),
        ofNat_eq_of_toNat (b := d) (by omega)]
      rfl

@[simp] theorem encode_nil : encode [] = [] := rfl

@[simp] theorem encode_cons (c : Char) (cs : List Char) :
    encode (c :: cs) = String.utf8EncodeChar c ++ encode cs := rfl

theorem encodeChar_length_pos (c : Char) : 0 < (String.utf8EncodeChar c).length := by
  rw [String.length_utf8EncodeChar]
  exact c.utf8Size_pos

theorem encode_cons_ne_nil (c : Char) (cs : List Char) : encode (c :: cs) ≠ [] := by
  have hpos := encodeChar_length_pos c
  intro h
  have hlen := congrArg List.length h
  rw [encode_cons, List.length_append, List.length_nil] at hlen
  omega

theorem drop_encodeChar (c : Char) (rest : List UInt8) :
    (String.utf8EncodeChar c ++ rest).drop c.utf8Size = rest := by
  rw [← String.length_utf8EncodeChar, List.drop_left]

theorem validate_cons (c : Char) (rest : List UInt8) :
    akUtf8Validate (String.utf8EncodeChar c ++ rest) = akUtf8Validate rest := by
  have hp := encodeChar_length_pos c
  have hs := c.utf8Size_pos
  rw [akUtf8Validate]
  simp only [decode_utf8EncodeChar, List.length_append, drop_encodeChar]
  rw [if_pos (by omega), dif_neg (by simp; omega)]

theorem decodeWalk_cons (c : Char) (rest : List UInt8) :
    decodeWalk (String.utf8EncodeChar c ++ rest) = c.toNat :: decodeWalk rest := by
  have hp := encodeChar_length_pos c
  have hs := c.utf8Size_pos
  rw [decodeWalk]
  simp only [decode_utf8EncodeChar, List.length_append, drop_encodeChar]
  rw [if_pos (by omega), dif_neg (by omega)]

theorem charCount_cons (c : Char) (rest : List UInt8) :
    akUtf8CharCount (String.utf8EncodeChar c ++ rest) = 1 + akUtf8CharCount rest := by
  have hp := encodeChar_length_pos c
  have hs := c.utf8Size_pos
  have hl : akUtf8CharLen (String.utf8EncodeChar c ++ rest) = c.utf8Size := by
    rw [← akUtf8Decode_bytes, decode_utf8EncodeChar]
  rw [akUtf8CharCount]
  simp only [hl, List.length_append, drop_encodeChar]
  rw [if_pos (by omega), dif_neg (by omega)]

theorem validate_encode (cs : List Char) : akUtf8Validate (encode cs) = true := by
  induction cs with
  | nil => rw [encode_nil, akUtf8Validate]; rfl
  | cons c cs ih => rw [encode_cons, validate_cons, ih]

theorem decodeWalk_encode (cs : List Char) : decodeWalk (encode cs) = cs.map Char.toNat := by
  induction cs with
  | nil => rw [encode_nil, decodeWalk]; rfl
  | cons c cs ih => rw [encode_cons, decodeWalk_cons, ih, List.map_cons]

theorem charCount_encode (cs : List Char) : akUtf8CharCount (encode cs) = cs.length := by
  induction cs with
  | nil => rw [encode_nil, akUtf8CharCount]; rfl
  | cons c cs ih => rw [encode_cons, charCount_cons, ih, List.length_cons, Nat.add_comm]

/-- Every accepted sequence is an encoding: each valid verdict peels one
canonical character off the front. -/
theorem exists_encode_of_validate {data : List UInt8} (h : akUtf8Validate data = true) :
    ∃ cs, encode cs = data := by
  induction hn : data.length using Nat.strong_induction_on generalizing data with
  | _ n ih =>
      by_cases hd : data = []
      · exact ⟨[], hd.symm⟩
      have hpos : 0 < data.length := List.length_pos_iff.mpr hd
      have hvalid : (akUtf8Decode data).valid = true := by
        rw [akUtf8Validate, if_pos hpos] at h
        by_contra hv
        rw [dif_pos (Or.inl (by simpa using hv))] at h
        exact Bool.false_ne_true h
      obtain ⟨c, rest, rfl⟩ := (accepted_of_valid hvalid).exists_char
      rw [validate_cons] at h
      have hp := encodeChar_length_pos c
      obtain ⟨cs, rfl⟩ := ih rest.length (by rw [← hn, List.length_append]; omega) h rfl
      exact ⟨c :: cs, rfl⟩

theorem encode_injective : Function.Injective encode := by
  intro cs ds h
  have hw : cs.map Char.toNat = ds.map Char.toNat := by
    rw [← decodeWalk_encode cs, h, decodeWalk_encode]
  exact List.map_injective_iff.mpr (fun c d hcd => Char.toNat_inj.mp hcd) hw

/-- Validation accepts exactly the concatenations of canonical encodings of
scalar values, and on those the decoder walks through exactly these values. -/
theorem akUtf8Validate_exact (data : List UInt8) :
    (akUtf8Validate data = true ↔ ∃ cs : List Char, encode cs = data) ∧
    (akUtf8Validate data = true → ∃! cs : List Char, encode cs = data ∧
      decodeWalk data = cs.map Char.toNat ∧ akUtf8CharCount data = cs.length) := by
  constructor
  · constructor
    · exact exists_encode_of_validate
    · rintro ⟨cs, rfl⟩
      exact validate_encode cs
  · intro h
    obtain ⟨cs, rfl⟩ := exists_encode_of_validate h
    exact ⟨cs, ⟨rfl, decodeWalk_encode cs, charCount_encode cs⟩, fun ds hds => encode_injective hds.1⟩

end Ak24.Utf8Validity
