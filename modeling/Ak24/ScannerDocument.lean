import Ak24.ScannerDigits

namespace Ak24.ScannerDocument

open Utf8Model Utf8Validity Utf8Boundary Utf8Iteration ScannerModel ScannerCursor ScannerSkip ScannerLexeme
  ScannerDigits

def leadByte (c : Char) : UInt8 := (String.utf8EncodeChar c).getD 0 0

def wordChar (stops : List UInt8) (c : Char) : Bool :=
  !akUtf8IsWhitespace c.toNat && !isStopSymbol (leadByte c) stops

def EndsWord (stops : List UInt8) (rest : List Char) : Prop := ∀ c ∈ rest.head?, wordChar stops c = false

def isSignChar (c : Char) : Bool := c == '+' || c == '-'

def startsDigit : List Char → Bool
  | [] => false
  | c :: cs => akUtf8IsDigit c.toNat || isSignChar c && cs.head?.any (fun d => akUtf8IsDigit d.toNat)

def Spells (chars : List Char) : StaticBase → Prop
  | .none => False
  | .integer => IsInteger (encode chars)
  | .real => IsReal (encode chars)
  | .symbol => chars ≠ [] ∧ startsDigit chars = false

structure IsWord (stops : List UInt8) (base : StaticBase) (chars : List Char) : Prop where
  spells : Spells chars base
  inside : ∀ c ∈ chars, wordChar stops c = true
  not_comment : chars.head? ≠ some ';'

/-- A text whose words, from a byte offset on, are these: whitespace, comments up
to a newline, and words that are followed by whitespace, a stop symbol or the
end. A last comment may be open. -/
inductive Layout (stops : List UInt8) : Nat → List StaticType → List Char → Prop
  | nil (pos : Nat) : Layout stops pos [] []
  | openComment (pos : Nat) (body : List Char) (hbody : '\n' ∉ body) : Layout stops pos [] (';' :: body)
  | whitespace {pos : Nat} {words : List StaticType} {rest : List Char} (c : Char)
      (hc : akUtf8IsWhitespace c.toNat = true) (h : Layout stops (pos + c.utf8Size) words rest) :
      Layout stops pos words (c :: rest)
  | comment {pos : Nat} {words : List StaticType} {rest : List Char} (body : List Char) (hbody : '\n' ∉ body)
      (h : Layout stops (pos + (encode (';' :: body ++ ['\n'])).length) words rest) :
      Layout stops pos words (';' :: body ++ '\n' :: rest)
  | word {pos : Nat} {words : List StaticType} {rest : List Char} {base : StaticBase} (chars : List Char)
      (hword : IsWord stops base chars) (hend : EndsWord stops rest)
      (h : Layout stops (pos + (encode chars).length) words rest) :
      Layout stops pos (⟨base, some pos, (encode chars).length⟩ :: words) (chars ++ rest)

def readWords (stops : List UInt8) : Nat → Scanner → Option (List StaticType)
  | 0, _ => none
  | fuel + 1, scanner =>
    let skipped := akScannerSkipWhitespaceAndComments scanner
    if skipped.1 then
      let word := akScannerReadStaticBaseType skipped.2 stops
      if word.1.success then (readWords stops fuel word.2).map (word.1.data :: ·) else none
    else some []

/-- The stop symbols of the callers: ASCII bytes, none of them a digit. -/
structure PlainStops (stops : List UInt8) : Prop where
  ascii : Ascii stops
  not_digit : ∀ b ∈ stops, asciiDigit b = false

section Characters

variable {stops : List UInt8} {c : Char}

theorem leadByte_ascii (h : c.toNat < 0x80) : leadByte c = UInt8.ofNat c.toNat := by
  rw [leadByte, encodeChar_ascii h]
  rfl

theorem leadByte_ascii_toNat (h : c.toNat < 0x80) : (leadByte c).toNat = c.toNat := by
  rw [leadByte_ascii h, UInt8.toNat_ofNat']
  omega

theorem wide_bytes (h : ¬ c.toNat < 0x80) : ∀ b ∈ String.utf8EncodeChar c, 0x80 ≤ b.toNat := by
  rcases encodeChar_shape c with ⟨b, hc, hb⟩ | ⟨a, tail, hc, ha, ht⟩
  · have hsize : c.utf8Size = 1 := by rw [← String.length_utf8EncodeChar, hc]; rfl
    have hle := UInt32.le_iff_toNat_le.mp (Char.utf8Size_eq_one_iff.mp hsize)
    have hval : c.val.toNat = c.toNat := rfl
    rw [hval] at hle
    exact absurd (Nat.lt_succ_of_le hle) h
  · rw [hc]
    refine List.forall_mem_cons.mpr ⟨by omega, fun b hb => ((isContinuationByte_iff b).mp (ht b hb)).1⟩

theorem leadByte_mem (c : Char) : leadByte c ∈ String.utf8EncodeChar c := by
  rw [leadByte, List.getD_eq_getElem _ _ (encodeChar_length_pos c)]
  exact List.getElem_mem _

theorem leadByte_wide (h : ¬ c.toNat < 0x80) : 0x80 ≤ (leadByte c).toNat := wide_bytes h _ (leadByte_mem c)

theorem leadByte_lt_iff : (leadByte c).toNat < 0x80 ↔ c.toNat < 0x80 := by
  constructor
  · intro h
    by_contra hwide
    have := leadByte_wide hwide
    omega
  · intro h
    rwa [leadByte_ascii_toNat h]

theorem leadByte_toNat_eq_iff {n : Nat} (hn : n < 0x80) : (leadByte c).toNat = n ↔ c.toNat = n := by
  constructor
  · intro h
    rw [← leadByte_ascii_toNat (leadByte_lt_iff.mp (h ▸ hn)), h]
  · intro h
    rw [leadByte_ascii_toNat (h ▸ hn), h]

theorem isSignByte_lead : isSignByte (leadByte c) = isSignChar c := by
  rw [Bool.eq_iff_iff, isSignByte_iff, leadByte_toNat_eq_iff (by decide), leadByte_toNat_eq_iff (by decide),
    isSignChar, Bool.or_eq_true, beq_iff_eq, beq_iff_eq, ← Char.toNat_inj, ← Char.toNat_inj]
  rfl

theorem leadByte_semicolon : leadByte c = 0x3B ↔ c = ';' := by
  rw [← UInt8.toNat_inj, ← Char.toNat_inj]
  exact leadByte_toNat_eq_iff (by decide)

theorem wordChar_iff : wordChar stops c = true ↔
    akUtf8IsWhitespace c.toNat = false ∧ isStopSymbol (leadByte c) stops = false := by
  rw [wordChar, Bool.and_eq_true, Bool.not_eq_true', Bool.not_eq_true']

theorem isStopSymbol_wide (h : PlainStops stops) {b : UInt8} (hb : 0x80 ≤ b.toNat) :
    isStopSymbol b stops = false := by
  rw [isStopSymbol, ← Bool.not_eq_true, List.contains_iff_mem]
  intro hm
  have := h.ascii b hm
  omega

theorem wordChar_digit (h : PlainStops stops) (hd : akUtf8IsDigit c.toNat = true) : wordChar stops c = true := by
  refine wordChar_iff.mpr ⟨digit_not_whitespace_codepoint hd, ?_⟩
  by_cases ha : c.toNat < 0x80
  · rw [isStopSymbol, ← Bool.not_eq_true, List.contains_iff_mem]
    intro hm
    have hno := h.not_digit _ hm
    rw [← leadByte_ascii_toNat ha, digit_ascii _ (leadByte_lt_iff.mpr ha), hno] at hd
    exact Bool.false_ne_true hd
  · exact isStopSymbol_wide h (leadByte_wide ha)

theorem byte_ascii {cs : List Char} (h : ∀ c ∈ cs, c.toNat < 0x80) {b : UInt8} (hb : b ∈ encode cs) :
    ∃ c ∈ cs, b = leadByte c := by
  obtain ⟨c, hc, hb⟩ := mem_encode.mp hb
  rw [encodeChar_ascii (h c hc), List.mem_singleton, ← leadByte_ascii (h c hc)] at hb
  exact ⟨c, hc, hb⟩

theorem ascii_encode {cs : List Char} : Ascii (encode cs) ↔ ∀ c ∈ cs, c.toNat < 0x80 := by
  constructor
  · intro h c hc
    exact leadByte_lt_iff.mp (h _ (mem_encode.mpr ⟨c, hc, leadByte_mem c⟩))
  · intro h b hb
    obtain ⟨c, hc, rfl⟩ := byte_ascii h hb
    exact leadByte_lt_iff.mpr (h c hc)

theorem mem_of_byte {cs : List Char} {d : Char} (hd : d.toNat < 0x80)
    (h : ∃ b ∈ encode cs, b.toNat = d.toNat) : d ∈ cs := by
  obtain ⟨b, hb, hbd⟩ := h
  obtain ⟨c, hc, hb⟩ := mem_encode.mp hb
  by_cases ha : c.toNat < 0x80
  · rw [encodeChar_ascii ha, List.mem_singleton, ← leadByte_ascii ha] at hb
    rw [hb, leadByte_ascii_toNat ha, Char.toNat_inj] at hbd
    exact hbd ▸ hc
  · have := wide_bytes ha b hb
    omega

theorem inLexeme_ascii {cs : List Char} (ha : ∀ c ∈ cs, c.toNat < 0x80)
    (hin : ∀ c ∈ cs, wordChar stops c = true) : ∀ b ∈ encode cs, inLexeme stops b = true := by
  intro b hb
  obtain ⟨c, hc, rfl⟩ := byte_ascii ha hb
  obtain ⟨hws, hstop⟩ := wordChar_iff.mp (hin c hc)
  rw [← leadByte_ascii_toNat (ha c hc), whitespace_ascii _ (leadByte_lt_iff.mpr (ha c hc))] at hws
  rw [inLexeme, hws, hstop]
  rfl

end Characters

section Places

variable {stops : List UInt8} (l : List Char) {c : Char} {r : List Char}

theorem byteAt_char (c : Char) (r : List Char) : byteAt (encode (l ++ c :: r)) (encode l).length = leadByte c := by
  have h := getD_at l c r c.utf8Size_pos
  rwa [Nat.add_zero] at h

theorem isWhitespaceAt_char (c : Char) (r : List Char) :
    isWhitespaceAt (encode (l ++ c :: r)) (encode l).length = akUtf8IsWhitespace c.toNat :=
  classifyAt_char l c r _ _

theorem isDigitAt_char (c : Char) (r : List Char) :
    isDigitAt (encode (l ++ c :: r)) (encode l).length = akUtf8IsDigit c.toNat :=
  classifyAt_char l c r _ _

theorem endsAt_of_endsWord (h : EndsWord stops r) : EndsAt stops (encode (l ++ r)) (encode l).length := by
  cases r with
  | nil => exact Or.inl (by rw [List.append_nil])
  | cons c r =>
      have hc := h c rfl
      rw [← Bool.not_eq_true, wordChar_iff, not_and_or, Bool.not_eq_false, Bool.not_eq_false] at hc
      rw [EndsAt, isWhitespaceAt_char, byteAt_char]
      exact Or.inr hc

theorem isDigitAt_rest : isDigitAt (encode (l ++ r)) (encode l).length =
    r.head?.any (fun d => akUtf8IsDigit d.toNat) := by
  cases r with
  | nil => exact isDigitAt_end (by rw [List.append_nil])
  | cons c r => exact isDigitAt_char l c r

theorem not_digit_endsWord (hs : PlainStops stops) (h : EndsWord stops r) :
    r.head?.any (fun d => akUtf8IsDigit d.toNat) = false := by
  cases r with
  | nil => rfl
  | cons c r =>
      have hc := h c rfl
      rw [← Bool.not_eq_true]
      intro hd
      rw [wordChar_digit hs hd] at hc
      exact Bool.false_ne_true hc.symm

theorem tokenLoop_symbol {w : List Char} (hw : ∀ c ∈ w, wordChar stops c = true) (hend : EndsWord stops r) :
    tokenLoop stops (encode (l ++ (w ++ r))) (encode l).length .symbol = (.symbol, (encode (l ++ w)).length) := by
  induction w generalizing l with
  | nil =>
      rw [List.append_nil, List.nil_append]
      exact tokenLoop_end (endsAt_of_endsWord l hend) .symbol
  | cons c w ih =>
      obtain ⟨hws, hstop⟩ := wordChar_iff.mp (hw c List.mem_cons_self)
      have hlen : charByteLenAt (encode (l ++ c :: (w ++ r))) (encode l).length = c.utf8Size := charByteLenAt_char l c _
      have hnext := ih (l ++ [c]) (fun d hd => hw d (List.mem_cons_of_mem c hd))
      rw [List.append_assoc, List.append_assoc, List.singleton_append, List.singleton_append,
        length_encode_concat] at hnext
      rw [List.cons_append, tokenLoop, dif_pos ⟨lt_length_encode l c _, by decide⟩, isWhitespaceAt_char, hws,
        byteAt_char, hstop, if_neg Bool.false_ne_true, if_neg Bool.false_ne_true, parseStep, hlen,
        if_neg c.utf8Size_pos.ne']
      exact hnext

theorem encode_sign_char (h : isSignChar c = true) : c.utf8Size = 1 := by
  rw [isSignChar, Bool.or_eq_true, beq_iff_eq, beq_iff_eq] at h
  rcases h with rfl | rfl <;> rfl

theorem tokenStart_char (c : Char) (r : List Char) : tokenStart (encode (l ++ c :: r)) (encode l).length =
    if isSignChar c then
      (if r.head?.any (fun d => akUtf8IsDigit d.toNat) then .integer else .symbol, (encode (l ++ [c])).length)
    else (if akUtf8IsDigit c.toNat then .integer else .symbol, (encode l).length) := by
  rw [tokenStart_eq, byteAt_char, isSignByte_lead, isDigitAt_char]
  by_cases h : isSignChar c = true
  · have hnext := isDigitAt_rest (l ++ [c]) (r := r)
    rw [List.append_assoc, List.singleton_append, length_encode_concat, encode_sign_char h] at hnext
    rw [if_pos h, if_pos h, hnext, length_encode_concat, encode_sign_char h]
  · rw [if_neg h, if_neg h]

end Places

section Reading

variable {stops : List UInt8} (l : List Char) {c : Char} {w r : List Char}

theorem skipWhitespace_char (hc : akUtf8IsWhitespace c.toNat = false) :
    skipWhitespace (encode (l ++ c :: r)) (encode l).length = (encode l).length := by
  rw [skipWhitespace, if_neg]
  rintro ⟨_, hw⟩
  rw [isWhitespaceAt_char, hc] at hw
  exact Bool.false_ne_true hw

theorem tokenLoop_start_symbol (hs : PlainStops stops) (hw : ∀ d ∈ c :: w, wordChar stops d = true)
    (hend : EndsWord stops r) (hd : startsDigit (c :: w) = false) :
    let entry := tokenStart (encode (l ++ (c :: w ++ r))) (encode l).length
    tokenLoop stops (encode (l ++ (c :: w ++ r))) entry.2 entry.1 = (.symbol, (encode (l ++ c :: w)).length) := by
  intro entry
  rw [startsDigit, Bool.or_eq_false_iff, Bool.and_eq_false_iff] at hd
  have hentry : entry = _ := tokenStart_char l c (w ++ r)
  by_cases hsign : isSignChar c = true
  · have hnext : (w ++ r).head?.any (fun d => akUtf8IsDigit d.toNat) = false := by
      rcases hd.2 with hno | hno
      · exact absurd hsign (by rw [hno]; exact Bool.false_ne_true)
      · cases w with
        | nil => exact not_digit_endsWord hs hend
        | cons d w => exact hno
    have hloop := tokenLoop_symbol (l ++ [c]) (fun d hd => hw d (List.mem_cons_of_mem c hd)) hend
    rw [List.append_assoc, List.append_assoc, List.singleton_append, List.singleton_append] at hloop
    rw [hentry, if_pos hsign, hnext, if_neg Bool.false_ne_true]
    exact hloop
  · rw [hentry, if_neg hsign, hd.1, if_neg Bool.false_ne_true]
    exact tokenLoop_symbol l hw hend

theorem read_symbol (hs : PlainStops stops) (hw : ∀ d ∈ c :: w, wordChar stops d = true)
    (hend : EndsWord stops r) (hd : startsDigit (c :: w) = false) :
    akScannerReadStaticBaseType ⟨encode (l ++ (c :: w ++ r)), (encode l).length⟩ stops =
      (⟨true, (encode l).length, 0, ⟨.symbol, some (encode l).length, (encode (c :: w)).length⟩⟩,
        ⟨encode (l ++ (c :: w ++ r)), (encode (l ++ c :: w)).length⟩) := by
  obtain ⟨hws, hstop⟩ := wordChar_iff.mp (hw c List.mem_cons_self)
  have hlt : (encode l).length < (encode (l ++ (c :: w ++ r))).length := lt_length_encode l c (w ++ r)
  have hbyte : byteAt (encode (l ++ (c :: w ++ r))) (encode l).length = leadByte c := byteAt_char l c (w ++ r)
  have hskip : skipWhitespace (encode (l ++ (c :: w ++ r))) (encode l).length = (encode l).length :=
    skipWhitespace_char l hws
  have hloop := tokenLoop_start_symbol l hs hw hend hd
  have hlen : (encode (l ++ c :: w)).length = (encode l).length + (encode (c :: w)).length := by
    rw [encode_append, List.length_append]
  have hpos := List.length_pos_of_ne_nil (encode_cons_ne_nil c w)
  simp only [akScannerReadStaticBaseType, hskip, hbyte, hstop, hloop]
  rw [if_neg (by omega), if_neg Bool.false_ne_true, if_neg (by decide), if_neg (by omega), hlen,
    Nat.add_sub_cancel_left]
  rfl

theorem isInteger_ascii {l : List UInt8} (h : IsInteger l) : l ≠ [] ∧ ∀ b ∈ l, numberByte b = true := by
  obtain ⟨sign, digits, hsign, hne, hdigits, rfl⟩ := h
  refine ⟨List.append_ne_nil_of_right_ne_nil _ hne, fun b hb => ?_⟩
  rcases List.mem_append.mp hb with hb | hb
  · exact sign_numberByte hsign b hb
  · exact numberByte_of_digit (hdigits b hb)

theorem isReal_ascii {l : List UInt8} (h : IsReal l) : l ≠ [] ∧ ∀ b ∈ l, numberByte b = true := by
  obtain ⟨sign, digits, fraction, hsign, hne, hdigits, hfraction, rfl⟩ := h
  refine ⟨by simp, fun b hb => ?_⟩
  rcases List.mem_append.mp hb with hb | hb
  · exact sign_numberByte hsign b hb
  rcases List.mem_append.mp hb with hb | hb
  · exact numberByte_of_digit (hdigits b hb)
  rcases List.mem_cons.mp hb with rfl | hb
  · rfl
  · exact numberByte_of_digit (hfraction b hb)

theorem lexemeAt_word (hs : PlainStops stops) (hw : ∀ d ∈ w, wordChar stops d = true) (hend : EndsWord stops r)
    (ha : ∀ d ∈ w, d.toNat < 0x80) : LexemeAt stops (encode (l ++ (w ++ r))) (encode l).length (encode w) := by
  have hlen : (encode l).length + (encode w).length = (encode (l ++ w)).length := by
    rw [encode_append, List.length_append]
  refine ⟨⟨encode r, ?_⟩, ascii_encode.mpr ha, inLexeme_ascii ha hw, ?_, fun hone => ?_⟩
  · rw [drop_encode_left, encode_append]
  · rw [hlen, ← List.append_assoc]
    exact endsAt_of_endsWord _ hend
  · rw [hone] at hlen
    rw [hlen, ← List.append_assoc, isDigitAt_rest]
    exact not_digit_endsWord hs hend

theorem read_ascii (hs : PlainStops stops) (hne : w ≠ []) (hw : ∀ d ∈ w, wordChar stops d = true)
    (hend : EndsWord stops r) (ha : ∀ d ∈ w, d.toNat < 0x80) :
    akScannerReadStaticBaseType ⟨encode (l ++ (w ++ r)), (encode l).length⟩ stops =
      if (scanToken (encode w)).1 = .error then
        (readFailure (encode l).length ((encode l).length + (scanToken (encode w)).2),
          ⟨encode (l ++ (w ++ r)), (encode l).length⟩)
      else
        (⟨true, (encode l).length, 0,
          ⟨(scanToken (encode w)).1.base, some (encode l).length, (encode w).length⟩⟩,
          ⟨encode (l ++ (w ++ r)), (encode (l ++ w)).length⟩) := by
  obtain ⟨c, w, rfl⟩ := List.exists_cons_of_ne_nil hne
  have hskip : skipWhitespace (encode (l ++ (c :: w ++ r))) (encode l).length = (encode l).length :=
    skipWhitespace_char l (wordChar_iff.mp (hw c List.mem_cons_self)).1
  have hlen : (encode (l ++ c :: w)).length = (encode l).length + (encode (c :: w)).length := by
    rw [encode_append, List.length_append]
  have hread := readStaticBaseType_scanToken ⟨encode (l ++ (c :: w ++ r)), (encode l).length⟩
    (hskip.symm ▸ lexemeAt_word l hs hw hend ha) (encode_cons_ne_nil c w)
  rw [hlen]
  rw [hskip] at hread
  exact hread

theorem IsWord.ne_nil {base : StaticBase} (h : IsWord stops base w) : w ≠ [] := by
  rintro rfl
  have hspells := h.spells
  cases base with
  | none => exact hspells
  | integer => exact not_isInteger_nil hspells
  | real => exact not_isReal_nil hspells
  | symbol => exact hspells.1 rfl

theorem read_word (hs : PlainStops stops) {base : StaticBase} (hw : IsWord stops base w) (hend : EndsWord stops r) :
    akScannerReadStaticBaseType ⟨encode (l ++ (w ++ r)), (encode l).length⟩ stops =
      (⟨true, (encode l).length, 0, ⟨base, some (encode l).length, (encode w).length⟩⟩,
        ⟨encode (l ++ (w ++ r)), (encode (l ++ w)).length⟩) := by
  have hspells := hw.spells
  have number {b : StaticBase} (hbytes : encode w ≠ [] ∧ ∀ b ∈ encode w, numberByte b = true)
      (hscan : (scanToken (encode w)).1 ≠ .error ∧ (scanToken (encode w)).1.base = b) :
      akScannerReadStaticBaseType ⟨encode (l ++ (w ++ r)), (encode l).length⟩ stops =
        (⟨true, (encode l).length, 0, ⟨b, some (encode l).length, (encode w).length⟩⟩,
          ⟨encode (l ++ (w ++ r)), (encode (l ++ w)).length⟩) := by
    have hne : w ≠ [] := fun h => hbytes.1 (by rw [h]; rfl)
    have ha := ascii_encode.mp (fun b hb => (numberByte_spec b (hbytes.2 b hb)).1)
    rw [read_ascii l hs hne hw.inside hend ha, if_neg hscan.1, hscan.2]
  cases base with
  | none => exact hspells.elim
  | integer =>
      have hscan := (scanToken_integer_iff _).mpr hspells
      exact number (isInteger_ascii hspells) (by rw [hscan]; exact ⟨by decide, rfl⟩)
  | real =>
      have hscan := (scanToken_real_iff _).mpr hspells
      exact number (isReal_ascii hspells) (by rw [hscan]; exact ⟨by decide, rfl⟩)
  | symbol =>
      obtain ⟨c, w, rfl⟩ := List.exists_cons_of_ne_nil hspells.1
      exact read_symbol l hs hw.inside hend hspells.2

end Reading

section Spacing

variable {stops : List UInt8} (l : List Char) {c : Char} {body r : List Char}

theorem item_whitespace (hc : akUtf8IsWhitespace c.toNat = true) :
    Item (encode (l ++ c :: r)) (encode l).length (encode (l ++ [c])).length := by
  refine .whitespace (whitespaceItem_iff.mpr ⟨?_, ?_⟩)
  · rw [isWhitespaceAt_char]
    exact hc
  · rw [charByteLenAt_char, length_encode_concat]

theorem no_newline (hbody : '\n' ∉ body) : ∀ i < (encode body).length, byteAt (encode body) i ≠ 0x0A := by
  intro i hi he
  rw [byteAt, List.getD_eq_getElem _ _ hi] at he
  exact hbody (mem_of_byte (by decide) ⟨_, List.getElem_mem hi, by rw [he]; rfl⟩)

theorem comment_bytes (hbody : '\n' ∉ body) (i : Nat) (hi : (encode l).length < i)
    (hlt : i < (encode (l ++ ';' :: body)).length) : byteAt (encode (l ++ (';' :: body ++ r))) i ≠ 0x0A := by
  have hsemi : encode (';' :: body) = 0x3B :: encode body := rfl
  rw [encode_append, hsemi, List.length_append, List.length_cons] at hlt
  rw [encode_append, encode_append, hsemi, byteAt, List.getD_append_right _ _ _ _ hi.le,
    List.getD_append _ _ _ _ (by rw [List.length_cons]; omega),
    show i - (encode l).length = i - (encode l).length - 1 + 1 by omega, List.getD_cons_succ]
  exact no_newline hbody _ (by omega)

theorem item_comment (hbody : '\n' ∉ body) : Item (encode (l ++ (';' :: body ++ '\n' :: r))) (encode l).length
    (encode (l ++ (';' :: body ++ ['\n']))).length := by
  have heol : (encode (l ++ (';' :: body ++ ['\n']))).length = (encode (l ++ ';' :: body)).length + 1 := by
    rw [← List.append_assoc, length_encode_concat]
    rfl
  have hassoc : l ++ (';' :: body ++ '\n' :: r) = (l ++ ';' :: body) ++ '\n' :: r := by rw [List.append_assoc]
  rw [heol]
  refine .comment ?_ (lt_length_encode l ';' body) ?_ ?_ (comment_bytes l hbody)
  · exact leadByte_semicolon.mpr rfl ▸ byteAt_char l ';' (body ++ '\n' :: r)
  · rw [hassoc]
    exact lt_length_encode _ _ _
  · rw [hassoc, byteAt_char]
    rfl

theorem item_openComment (hbody : '\n' ∉ body) : Item (encode (l ++ ';' :: body)) (encode l).length
    (encode (l ++ ';' :: body)).length := by
  refine .lastComment (lt_length_encode l ';' body) (leadByte_semicolon.mpr rfl ▸ byteAt_char l ';' body)
    (fun i hi hlt => ?_)
  have h := comment_bytes l hbody i hi hlt (r := [])
  rwa [List.append_nil] at h

theorem not_item (hws : akUtf8IsWhitespace c.toNat = false) (hc : c ≠ ';') (q : Nat) :
    ¬ Item (encode (l ++ c :: r)) (encode l).length q := by
  intro h
  rcases h.starts with hw | hb
  · rw [isWhitespaceAt_char, hws] at hw
    exact Bool.false_ne_true hw
  · rw [byteAt_char] at hb
    exact hc (leadByte_semicolon.mp hb)

theorem skip_item {buf : List UInt8} {p q : Nat} (h : Item buf p q) :
    skipWhitespaceAndComments buf p = skipWhitespaceAndComments buf q := by
  obtain ⟨hp, hstop⟩ := skipWhitespaceAndComments_items buf p
  obtain ⟨hq, hstop'⟩ := skipWhitespaceAndComments_items buf q
  exact items_end_unique hp (hq.head h) hstop hstop'

theorem readWords_item {buf : List UInt8} {p q : Nat} (h : Item buf p q) (fuel : Nat) :
    readWords stops fuel ⟨buf, p⟩ = readWords stops fuel ⟨buf, q⟩ := by
  cases fuel with
  | zero => rfl
  | succ fuel =>
      simp only [readWords, akScannerSkipWhitespaceAndComments, settle, skip_item h]
      by_cases hend : buf.length ≤ skipWhitespaceAndComments buf q
      · rw [if_pos hend, if_pos hend]
        rfl
      · rw [if_neg hend, if_neg hend]

theorem readWords_end {buf : List UInt8} {pos : Nat} (h : buf.length ≤ pos) (fuel : Nat) :
    readWords stops (fuel + 1) ⟨buf, pos⟩ = some [] := by
  have hskip : skipWhitespaceAndComments buf pos = pos := by
    rw [skipWhitespaceAndComments, dif_neg (by omega)]
  simp only [readWords, akScannerSkipWhitespaceAndComments, settle, hskip, if_pos h]
  rfl

theorem readWords_word (stops : List UInt8) (hws : akUtf8IsWhitespace c.toNat = false) (hc : c ≠ ';') (fuel : Nat) :
    readWords stops (fuel + 1) ⟨encode (l ++ c :: r), (encode l).length⟩ =
      let word := akScannerReadStaticBaseType ⟨encode (l ++ c :: r), (encode l).length⟩ stops
      if word.1.success then (readWords stops fuel word.2).map (word.1.data :: ·) else none := by
  have hskip : skipWhitespaceAndComments (encode (l ++ c :: r)) (encode l).length = (encode l).length := by
    have hrun := (skipWhitespaceAndComments_items (encode (l ++ c :: r)) (encode l).length).1
    rcases hrun.cases_head with he | ⟨q, hq, _⟩
    · exact he.symm
    · exact absurd hq (not_item l hws hc q)
  have hlt := lt_length_encode l c r
  simp only [readWords, akScannerSkipWhitespaceAndComments, settle, hskip, if_neg (Nat.not_le_of_lt hlt), if_true]

end Spacing

/-- Every word that a text is laid out of is read back, at its place and with its
kind. -/
theorem readWords_layout {stops : List UInt8} (hs : PlainStops stops) {pos : Nat} {words : List StaticType}
    {text : List Char} (h : Layout stops pos words text) : ∀ l : List Char, (encode l).length = pos →
      ∀ fuel, words.length < fuel → readWords stops fuel ⟨encode (l ++ text), pos⟩ = some words := by
  induction h with
  | nil pos =>
      rintro l rfl fuel hfuel
      obtain ⟨fuel, rfl⟩ := Nat.exists_eq_add_of_lt hfuel
      rw [List.append_nil]
      exact readWords_end le_rfl _
  | openComment pos body hbody =>
      rintro l rfl fuel hfuel
      obtain ⟨fuel, rfl⟩ := Nat.exists_eq_add_of_lt hfuel
      rw [readWords_item (item_openComment l hbody)]
      exact readWords_end le_rfl _
  | @whitespace pos words rest c hc h ih =>
      rintro l rfl fuel hfuel
      have hnext := ih (l ++ [c]) (length_encode_concat l c) fuel hfuel
      rw [readWords_item (item_whitespace l hc), length_encode_concat]
      rw [List.append_assoc, List.singleton_append] at hnext
      exact hnext
  | @comment pos words rest body hbody h ih =>
      rintro l rfl fuel hfuel
      have hlen : (encode (l ++ (';' :: body ++ ['\n']))).length =
          (encode l).length + (encode (';' :: body ++ ['\n'])).length := by
        rw [encode_append, List.length_append]
      have hnext := ih (l ++ (';' :: body ++ ['\n'])) hlen fuel hfuel
      rw [readWords_item (item_comment l hbody), hlen]
      rw [List.append_assoc, List.append_assoc, List.singleton_append] at hnext
      exact hnext
  | @word pos words rest base chars hword hend h ih =>
      rintro l rfl fuel hfuel
      obtain ⟨fuel, rfl⟩ : ∃ n, fuel = n + 1 := ⟨fuel - 1, by omega⟩
      obtain ⟨c, w, rfl⟩ := List.exists_cons_of_ne_nil hword.ne_nil
      have hlen : (encode (l ++ c :: w)).length = (encode l).length + (encode (c :: w)).length := by
        rw [encode_append, List.length_append]
      have hnext := ih (l ++ c :: w) hlen fuel (Nat.lt_of_succ_lt_succ hfuel)
      have hloop := readWords_word l (r := w ++ rest) stops
        (wordChar_iff.mp (hword.inside c List.mem_cons_self)).1 (fun hc => hword.not_comment (by rw [hc]; rfl)) fuel
      rw [← List.cons_append, read_word l hs hword hend, if_pos rfl, hlen] at hloop
      rw [List.append_assoc] at hnext
      rw [hloop, hnext]
      rfl

section Rejecting

variable {stops : List UInt8} (l : List Char) {c : Char} {p q w r : List Char} {d : Char}

theorem tokenLoop_wide (hs : PlainStops stops) (hp : ∀ c ∈ p, c.toNat < 0x80)
    (hin : ∀ c ∈ p, wordChar stops c = true) (hd : wordChar stops d = true) (hwide : ¬ d.toNat < 0x80) :
    (tokenLoop stops (encode (l ++ (p ++ d :: q))) (encode l).length .integer).1 = .error := by
  have hdrop : (encode (l ++ (p ++ d :: q))).drop (encode l).length = encode p ++ encode (d :: q) := by
    rw [drop_encode_left, encode_append]
  rw [tokenLoop_append hdrop (ascii_encode.mpr hp) (inLexeme_ascii hp hin)]
  split_ifs with herr
  · rfl
  have hstate : (scan .integer (encode p)).1 = .integer ∨ (scan .integer (encode p)).1 = .real := by
    rcases scan_integer_cases (encode p) with h | h | h
    · exact Or.inl h
    · exact Or.inr h
    · exact absurd h herr
  rw [← List.length_append, ← encode_append, ← List.append_assoc]
  by_cases hdigit : akUtf8IsDigit d.toNat = true
  · exact tokenLoop_wideDigit (l ++ p) q hdigit hwide (fun b hb => isStopSymbol_wide hs (wide_bytes hwide b hb)) hstate
  · obtain ⟨hws, hstop⟩ := wordChar_iff.mp hd
    have hperiod : leadByte d ≠ 0x2E := by
      intro h
      have := leadByte_wide hwide
      rw [h] at this
      exact absurd this (by decide)
    have hstep : parseStep (encode (l ++ p ++ d :: q)) (encode (l ++ p)).length (scan .integer (encode p)).1 =
        (.error, (encode (l ++ p)).length) := by
      rcases hstate with h | h <;> rw [h, parseStep, isDigitAt_char, if_neg hdigit]
      rw [byteAt_char, if_neg hperiod]
    rw [tokenLoop, dif_pos ⟨lt_length_encode _ _ _, herr⟩, isWhitespaceAt_char, hws, byteAt_char, hstop,
      if_neg Bool.false_ne_true, if_neg Bool.false_ne_true, hstep, tokenLoop_error]

theorem sign_not_digit (h : isSignChar c = true) : c.toNat < 0x80 ∧ akUtf8IsDigit c.toNat = false := by
  rw [isSignChar, Bool.or_eq_true, beq_iff_eq, beq_iff_eq] at h
  rcases h with rfl | rfl <;> decide

theorem tokenLoop_start_wide (hs : PlainStops stops) (hw : ∀ d ∈ c :: w, wordChar stops d = true)
    (hd : startsDigit (c :: w) = true) (hwide : ∃ d ∈ c :: w, ¬ d.toNat < 0x80) :
    let entry := tokenStart (encode (l ++ (c :: w ++ r))) (encode l).length
    (tokenLoop stops (encode (l ++ (c :: w ++ r))) entry.2 entry.1).1 = .error := by
  intro entry
  have hentry : entry = _ := tokenStart_char l c (w ++ r)
  rw [startsDigit, Bool.or_eq_true, Bool.and_eq_true] at hd
  by_cases hsign : isSignChar c = true
  · obtain ⟨ha, hno⟩ := sign_not_digit hsign
    have hnext : w.head?.any (fun d => akUtf8IsDigit d.toNat) = true := by
      rcases hd with hd | hd
      · rw [hno] at hd
        exact absurd hd Bool.false_ne_true
      · exact hd.2
    have hhead : (w ++ r).head?.any (fun d => akUtf8IsDigit d.toNat) = true := by
      cases w with
      | nil => exact absurd hnext Bool.false_ne_true
      | cons d w => exact hnext
    obtain ⟨d, hd, hdw⟩ := hwide
    rcases List.mem_cons.mp hd with rfl | hd
    · exact absurd ha hdw
    obtain ⟨p, d, q, rfl, hp, hdw⟩ := exists_first (P := fun d : Char => d.toNat < 0x80) ⟨d, hd, hdw⟩
    have hin (d' : Char) (h : d' ∈ p ++ d :: q) : wordChar stops d' = true := hw d' (List.mem_cons_of_mem c h)
    have herr := tokenLoop_wide (l ++ [c]) (q := q ++ r) hs hp (fun d' h => hin d' (List.mem_append_left _ h))
      (hin d (by simp)) hdw
    rw [hentry, if_pos hsign, hhead, if_pos rfl]
    rw [List.append_assoc, List.singleton_append] at herr
    rw [List.cons_append, List.append_assoc, List.cons_append]
    exact herr
  · have hdig : akUtf8IsDigit c.toNat = true := hd.resolve_right (fun h => hsign h.1)
    obtain ⟨p, d, q, he, hp, hdw⟩ := exists_first (P := fun d : Char => d.toNat < 0x80) hwide
    have hin (d' : Char) (h : d' ∈ p ++ d :: q) : wordChar stops d' = true := hw d' (he ▸ h)
    have herr := tokenLoop_wide l (q := q ++ r) hs hp (fun d' h => hin d' (List.mem_append_left _ h))
      (hin d (by simp)) hdw
    rw [hentry, if_neg hsign, hdig, if_pos rfl, he, List.append_assoc, List.cons_append]
    exact herr

theorem read_error (hc : wordChar stops c = true)
    (herr : (tokenLoop stops (encode (l ++ c :: r)) (tokenStart (encode (l ++ c :: r)) (encode l).length).2
      (tokenStart (encode (l ++ c :: r)) (encode l).length).1).1 = .error) :
    (akScannerReadStaticBaseType ⟨encode (l ++ c :: r), (encode l).length⟩ stops).1.success = false := by
  obtain ⟨hws, hstop⟩ := wordChar_iff.mp hc
  have hlt := lt_length_encode l c r
  simp only [akScannerReadStaticBaseType, skipWhitespace_char l hws, byteAt_char, hstop, herr,
    if_neg (Nat.not_le_of_lt hlt), if_neg Bool.false_ne_true, if_true]
  rfl

theorem read_stop (hws : akUtf8IsWhitespace c.toNat = false) (hstop : isStopSymbol (leadByte c) stops = true) :
    (akScannerReadStaticBaseType ⟨encode (l ++ c :: r), (encode l).length⟩ stops).1.success = false := by
  have hlt := lt_length_encode l c r
  simp only [akScannerReadStaticBaseType, skipWhitespace_char l hws, byteAt_char, hstop,
    if_neg (Nat.not_le_of_lt hlt), if_true]
  rfl

theorem startsNumber_ascii (ha : ∀ d ∈ c :: w, d.toNat < 0x80) (h : startsDigit (c :: w) = true) :
    StartsNumber (encode (c :: w)) := by
  have hdigit {d : Char} (hda : d.toNat < 0x80) (hd : akUtf8IsDigit d.toNat = true) :
      asciiDigit (leadByte d) = true := by
    rwa [← digit_ascii _ (leadByte_lt_iff.mpr hda), leadByte_ascii_toNat hda]
  have hbytes {d : Char} (hda : d.toNat < 0x80) (cs : List Char) : encode (d :: cs) = leadByte d :: encode cs := by
    rw [encode_cons, encodeChar_ascii hda, leadByte_ascii hda, List.singleton_append]
  have hca := ha c List.mem_cons_self
  rw [startsDigit, Bool.or_eq_true, Bool.and_eq_true] at h
  rcases h with hc | ⟨hsign, hnext⟩
  · exact ⟨[], leadByte c, encode w, .none, hdigit hca hc, hbytes hca w⟩
  · cases w with
    | nil => exact absurd hnext Bool.false_ne_true
    | cons d w =>
        have hda := ha d (by simp)
        refine ⟨[leadByte c], leadByte d, encode w, ?_, hdigit hda hnext, by rw [hbytes hca, hbytes hda]; rfl⟩
        rw [isSignChar, Bool.or_eq_true, beq_iff_eq, beq_iff_eq] at hsign
        rcases hsign with rfl | rfl
        · exact .plus
        · exact .minus

theorem isWord_of_read (hs : PlainStops stops) (hws : akUtf8IsWhitespace c.toNat = false) (hc : c ≠ ';')
    (hread : (akScannerReadStaticBaseType ⟨encode (l ++ c :: r), (encode l).length⟩ stops).1.success = true) :
    ∃ base w rest, c :: r = w ++ rest ∧ IsWord stops base w ∧ EndsWord stops rest := by
  have hchar : wordChar stops c = true := by
    refine wordChar_iff.mpr ⟨hws, ?_⟩
    by_contra hstop
    rw [read_stop l hws (by rwa [Bool.not_eq_false] at hstop)] at hread
    exact Bool.false_ne_true hread
  have hsplit : c :: r = c :: r.takeWhile (wordChar stops) ++ r.dropWhile (wordChar stops) := by
    rw [List.cons_append, List.takeWhile_append_dropWhile]
  have hin : ∀ d ∈ c :: r.takeWhile (wordChar stops), wordChar stops d = true :=
    List.forall_mem_cons.mpr ⟨hchar, fun d hd => List.mem_takeWhile_imp hd⟩
  have hend : EndsWord stops (r.dropWhile (wordChar stops)) := by
    intro d hd
    have hnot := List.head?_dropWhile_not (wordChar stops) r
    rw [Option.mem_def.mp hd] at hnot
    exact hnot
  have hspells : ∃ base, Spells (c :: r.takeWhile (wordChar stops)) base := by
    by_cases hd : startsDigit (c :: r.takeWhile (wordChar stops)) = true
    · rw [hsplit] at hread
      by_cases ha : ∀ d ∈ c :: r.takeWhile (wordChar stops), d.toNat < 0x80
      · have hsymbol : ¬ (scanToken (encode (c :: r.takeWhile (wordChar stops)))).1 = .symbol :=
          fun h => (scanToken_symbol_iff _).mp h (startsNumber_ascii ha hd)
        rw [read_ascii l hs (List.cons_ne_nil _ _) hin hend ha] at hread
        rcases scanToken_cases (encode (c :: r.takeWhile (wordChar stops))) with h | h | h | h
        · exact ⟨.integer, (scanToken_integer_iff _).mp h⟩
        · exact ⟨.real, (scanToken_real_iff _).mp h⟩
        · exact absurd h hsymbol
        · rw [if_pos h] at hread
          exact absurd hread Bool.false_ne_true
      · push Not at ha
        obtain ⟨d, hdw, hwide⟩ := ha
        have herr := tokenLoop_start_wide l (r := r.dropWhile (wordChar stops)) hs hin hd
          ⟨d, hdw, Nat.not_lt_of_le hwide⟩
        rw [List.cons_append] at hread herr
        rw [read_error l hchar herr] at hread
        exact absurd hread Bool.false_ne_true
    · exact ⟨.symbol, List.cons_ne_nil _ _, Bool.eq_false_of_not_eq_true hd⟩
  obtain ⟨base, hspells⟩ := hspells
  exact ⟨base, _, _, hsplit, ⟨hspells, hin, fun h => hc (Option.some.inj h)⟩, hend⟩

end Rejecting

/-- What the loop reads is what the text is laid out of: by the length of the text,
as each round takes at least one character from it. -/
theorem layout_of_readWords {stops : List UInt8} (hs : PlainStops stops) (text : List Char) :
    ∀ (l : List Char) (fuel : Nat) (words : List StaticType),
      readWords stops fuel ⟨encode (l ++ text), (encode l).length⟩ = some words →
        Layout stops (encode l).length words text := by
  induction hn : text.length using Nat.strong_induction_on generalizing text with
  | _ n ih =>
      intro l fuel words hread
      obtain _ | fuel := fuel
      · exact absurd hread (Option.some_ne_none words).symm
      cases text with
      | nil =>
          rw [List.append_nil, readWords_end le_rfl] at hread
          rw [← Option.some.inj hread]
          exact .nil _
      | cons c r =>
          rw [List.length_cons] at hn
          by_cases hws : akUtf8IsWhitespace c.toNat = true
          · rw [readWords_item (item_whitespace l hws)] at hread
            have hrest := ih r.length (by omega) r rfl (l ++ [c]) (fuel + 1) words
            rw [List.append_assoc, List.singleton_append] at hrest
            refine .whitespace c hws ?_
            rw [← length_encode_concat]
            exact hrest hread
          rw [Bool.not_eq_true] at hws
          by_cases hc : c = ';'
          · subst hc
            by_cases hnl : '\n' ∈ r
            · obtain ⟨body, rest, rfl, hbody⟩ := List.eq_append_cons_of_mem hnl
              rw [List.length_append, List.length_cons] at hn
              rw [← List.cons_append, readWords_item (item_comment l hbody)] at hread
              have hrest := ih rest.length (by omega) rest rfl (l ++ (';' :: body ++ ['\n'])) (fuel + 1) words
              rw [List.append_assoc, List.append_assoc, List.singleton_append] at hrest
              have hlayout := hrest hread
              rw [encode_append l, List.length_append] at hlayout
              exact .comment body hbody hlayout
            · rw [readWords_item (item_openComment l hnl), readWords_end le_rfl] at hread
              rw [← Option.some.inj hread]
              exact .openComment _ r hnl
          · rw [readWords_word l stops hws hc] at hread
            dsimp only at hread
            split_ifs at hread with hok
            obtain ⟨base, w, rest, hsplit, hword, hend⟩ := isWord_of_read l hs hws hc hok
            rw [hsplit, read_word l hs hword hend] at hread
            obtain ⟨tail, htail, rfl⟩ := Option.map_eq_some_iff.mp hread
            have hlt : rest.length < n := by
              have hlen := congrArg List.length hsplit
              have hpos := List.length_pos_of_ne_nil hword.ne_nil
              rw [List.length_cons, List.length_append] at hlen
              omega
            have hrest := ih rest.length hlt rest rfl (l ++ w) fuel tail
            rw [List.append_assoc] at hrest
            have hlayout := hrest htail
            rw [encode_append l, List.length_append] at hlayout
            rw [hsplit]
            exact .word w hword hend hlayout

theorem Layout.length_le {stops : List UInt8} {pos : Nat} {words : List StaticType} {text : List Char}
    (h : Layout stops pos words text) : words.length ≤ (encode text).length := by
  induction h with
  | nil pos => exact Nat.zero_le _
  | openComment pos body hbody => exact Nat.zero_le _
  | whitespace c hc h ih =>
      rw [encode_cons, List.length_append]
      exact ih.trans (Nat.le_add_left _ _)
  | comment body hbody h ih =>
      simp only [encode_append, encode_cons, List.length_append]
      omega
  | word chars hword hend h ih =>
      obtain ⟨c, w, rfl⟩ := List.exists_cons_of_ne_nil hword.ne_nil
      have hpos := List.length_pos_of_ne_nil (encode_cons_ne_nil c w)
      rw [encode_append, List.length_append, List.length_cons]
      omega

/-- All the words of a buffer. A word takes a byte at least, so the rounds never
run out. -/
def readDocument (stops buf : List UInt8) : Option (List StaticType) := readWords stops (buf.length + 1) ⟨buf, 0⟩

/-- Reading a valid text to its end gives its words, each with its kind, its place
and its length, exactly if the text is laid out of them. -/
theorem readDocument_iff (stops : List UInt8) (hs : PlainStops stops) (buf : List UInt8)
    (hvalid : akUtf8Validate buf = true) (words : List StaticType) :
    readDocument stops buf = some words ↔ ∃ text, encode text = buf ∧ Layout stops 0 words text := by
  constructor
  · intro h
    obtain ⟨text, rfl⟩ := exists_encode_of_validate hvalid
    exact ⟨text, rfl, layout_of_readWords hs text [] _ words h⟩
  · rintro ⟨text, rfl, h⟩
    exact readWords_layout hs h [] rfl _ (Nat.lt_succ_of_le h.length_le)

/-- The words of a note on the number seven, with the closing parenthesis as a
stop symbol. -/
theorem readDocument_iff_seven : ∃ text, encode text = [0x37, 0x20, 0x3B, 0x29, 0x0A, 0x2B] ∧
    Layout [0x29] 0 [⟨.integer, some 0, 1⟩, ⟨.symbol, some 5, 1⟩] text :=
  (readDocument_iff [0x29] ⟨by simp [Ascii], by simp [asciiDigit]⟩ [0x37, 0x20, 0x3B, 0x29, 0x0A, 0x2B]
    (by decide +kernel) _).mp (by decide +kernel)

end Ak24.ScannerDocument
