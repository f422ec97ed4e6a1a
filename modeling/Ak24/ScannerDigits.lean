import Ak24.ScannerLexeme

namespace Ak24.ScannerDigits

open Utf8Model Utf8Validity Utf8Boundary Utf8Iteration ScannerModel ScannerCursor ScannerSkip ScannerLexeme

def numberBody (digits : List Char) : Option (List Char) → List Char
  | none => digits
  | some fraction => digits ++ '.' :: fraction

/-- A number in a text, with the scanner at the whitespace before it: an optional
sign, digits of any script and, for a real, a period and more digits. Whitespace
or the end of the buffer follows, and no byte of it is a stop symbol. -/
structure NumberText where
  before : List Char
  blank : List Char
  sign : List Char
  digits : List Char
  fraction : Option (List Char)
  after : List Char
  stops : List UInt8
  blank_ok : ∀ c ∈ blank, akUtf8IsWhitespace c.toNat = true
  sign_ok : sign = [] ∨ sign = ['+'] ∨ sign = ['-']
  digits_ne : digits ≠ []
  digits_ok : ∀ c ∈ digits, akUtf8IsDigit c.toNat = true
  fraction_ok : ∀ f ∈ fraction, ∀ c ∈ f, akUtf8IsDigit c.toNat = true
  after_ok : ∀ c ∈ after.head?, akUtf8IsWhitespace c.toNat = true
  stops_ok : ∀ b ∈ encode (sign ++ numberBody digits fraction), isStopSymbol b stops = false

namespace NumberText

variable (t : NumberText)

def base : StaticBase :=
  match t.fraction with
  | none => .integer
  | some _ => .real

def lexeme : List Char := t.sign ++ numberBody t.digits t.fraction

def buffer : List UInt8 := encode (t.before ++ t.blank ++ (t.lexeme ++ t.after))

def position : Nat := (encode t.before).length

def start : Nat := (encode (t.before ++ t.blank)).length

/-- The number is read as one token of its kind that spans exactly its bytes. -/
def ReadsWhole : Prop :=
  akScannerReadStaticBaseType ⟨t.buffer, t.position⟩ t.stops =
    (⟨true, t.position, 0, ⟨t.base, some t.start, (encode t.lexeme).length⟩⟩,
      ⟨t.buffer, t.start + (encode t.lexeme).length⟩)

end NumberText

section Boundaries

variable (l : List Char) (c : Char) (r : List Char)

theorem drop_encode_left (l r : List Char) : (encode (l ++ r)).drop (encode l).length = encode r := by
  rw [encode_append, List.drop_left]

theorem lt_length_encode : (encode l).length < (encode (l ++ c :: r)).length := by
  have hpos := encodeChar_length_pos c
  rw [encode_append, List.length_append, encode_cons, List.length_append]
  omega

theorem classifyAt_char (onCodepoint : Nat → Bool) (onByte : UInt8 → Bool) :
    classifyAt onCodepoint onByte (encode (l ++ c :: r)) (encode l).length = onCodepoint c.toNat := by
  have hlt := lt_length_encode l c r
  rw [classifyAt, if_neg (by omega), drop_encode_left, encode_cons, decode_utf8EncodeChar]
  rfl

theorem charByteLenAt_char : charByteLenAt (encode (l ++ c :: r)) (encode l).length = c.utf8Size := by
  have hlt := lt_length_encode l c r
  rw [charByteLenAt, if_neg (by omega), charLen_at]

end Boundaries

theorem digit_not_whitespace_codepoint {n : Nat} (h : akUtf8IsDigit n = true) : akUtf8IsWhitespace n = false := by
  rw [akUtf8IsDigit, List.any_eq_true] at h
  obtain ⟨r, hr, hn⟩ := h
  rw [Bool.and_eq_true, decide_eq_true_eq, decide_eq_true_eq] at hn
  have hfree : ∀ r ∈ digitRanges, r.2 ≤ r.1 + 9 ∧ ∀ k < 10, akUtf8IsWhitespace (r.1 + k) = false := by
    decide +kernel
  obtain ⟨hwidth, hk⟩ := hfree r hr
  have hval := hk (n - r.1) (by omega)
  rwa [Nat.add_sub_cancel' hn.1] at hval

theorem skipWhitespace_blank (before : List Char) {blank : List Char} {c : Char} (r : List Char)
    (hblank : ∀ b ∈ blank, akUtf8IsWhitespace b.toNat = true) (hc : akUtf8IsWhitespace c.toNat = false) :
    skipWhitespace (encode (before ++ blank ++ c :: r)) (encode before).length =
      (encode (before ++ blank)).length := by
  induction blank generalizing before with
  | nil =>
      rw [List.append_nil, skipWhitespace, if_neg]
      rintro ⟨_, hw⟩
      rw [isWhitespaceAt, classifyAt_char, hc] at hw
      exact Bool.false_ne_true hw
  | cons b blank ih =>
      have hb := hblank b List.mem_cons_self
      have hsplit : before ++ b :: blank = before ++ [b] ++ blank := by simp
      have hnext := ih (before ++ [b]) (fun d hd => hblank d (List.mem_cons_of_mem b hd))
      rw [← hsplit] at hnext
      have hbuf : before ++ b :: blank ++ c :: r = before ++ b :: (blank ++ c :: r) := by simp
      have hw : isWhitespaceAt (encode (before ++ b :: blank ++ c :: r)) (encode before).length = true := by
        rw [hbuf, isWhitespaceAt, classifyAt_char]
        exact hb
      have hlen : charByteLenAt (encode (before ++ b :: blank ++ c :: r)) (encode before).length = b.utf8Size := by
        rw [hbuf, charByteLenAt_char]
      have hlt : (encode before).length < (encode (before ++ b :: blank ++ c :: r)).length := by
        rw [hbuf]
        exact lt_length_encode before b _
      rw [skipWhitespace, if_pos ⟨hlt, hw⟩, hlen, dif_neg b.utf8Size_pos.ne', ← length_encode_concat]
      exact hnext

theorem encodeChar_ascii {c : Char} (h : c.toNat < 0x80) : String.utf8EncodeChar c = [UInt8.ofNat c.toNat] := by
  have hval : c.val.toNat = c.toNat := rfl
  simp only [String.utf8EncodeChar, hval]
  rw [if_pos (by omega)]

theorem mem_encode {b : UInt8} {cs : List Char} : b ∈ encode cs ↔ ∃ c ∈ cs, b ∈ String.utf8EncodeChar c :=
  List.mem_flatMap

theorem encode_digits_ascii {ds : List Char} (hd : ∀ c ∈ ds, akUtf8IsDigit c.toNat = true)
    (ha : ∀ c ∈ ds, c.toNat < 0x80) : ∀ b ∈ encode ds, asciiDigit b = true := by
  intro b hb
  obtain ⟨c, hc, hb⟩ := mem_encode.mp hb
  have hlt := ha c hc
  rw [encodeChar_ascii hlt, List.mem_singleton] at hb
  have hn : (UInt8.ofNat c.toNat).toNat = c.toNat := by
    rw [UInt8.toNat_ofNat']
    omega
  rw [hb, ← digit_ascii _ (by rw [hn]; exact hlt), hn]
  exact hd c hc

def numberByte (b : UInt8) : Bool := asciiDigit b || isSignByte b || b == 0x2E

theorem numberByte_spec (b : UInt8) (h : numberByte b = true) : b.toNat < 0x80 ∧ asciiWhitespace b = false := by
  rw [numberByte, Bool.or_eq_true, Bool.or_eq_true, asciiDigit_iff, isSignByte_iff, beq_iff_eq, ← UInt8.toNat_inj] at h
  have hperiod : (0x2E : UInt8).toNat = 0x2E := rfl
  rw [← Bool.not_eq_true, asciiWhitespace_iff]
  omega

theorem numberByte_of_digit {b : UInt8} (h : asciiDigit b = true) : numberByte b = true := by
  rw [numberByte, h]
  rfl

theorem encode_sign {sign : List Char} (h : sign = [] ∨ sign = ['+'] ∨ sign = ['-']) : IsSign (encode sign) := by
  rcases h with rfl | rfl | rfl
  · exact .none
  · exact .plus
  · exact .minus

theorem encode_period (f : List Char) : encode ('.' :: f) = 0x2E :: encode f := rfl

theorem sign_numberByte {l : List UInt8} (h : IsSign l) : ∀ b ∈ l, numberByte b = true := by
  cases h <;> simp [numberByte, isSignByte]

/-- A token loop in a number fails inside the first digit that takes more than
one byte. -/
theorem tokenLoop_wideDigit {stops : List UInt8} (l : List Char) {d : Char} (r : List Char)
    (hd : akUtf8IsDigit d.toNat = true) (hwide : ¬ d.toNat < 0x80)
    (hstop : ∀ b ∈ String.utf8EncodeChar d, isStopSymbol b stops = false) {state : ParseState}
    (hst : state = .integer ∨ state = .real) :
    (tokenLoop stops (encode (l ++ d :: r)) (encode l).length state).1 = .error := by
  have hlt := lt_length_encode l d r
  have hsize : d.utf8Size ≠ 1 := by
    intro h
    have hle := UInt32.le_iff_toNat_le.mp (Char.utf8Size_eq_one_iff.mp h)
    have hval : d.val.toNat = d.toNat := rfl
    rw [hval] at hle
    exact hwide (Nat.lt_succ_of_le hle)
  have hpos := d.utf8Size_pos
  have hbyte (i : Nat) (hi : i < d.utf8Size) :
      isStopSymbol (byteAt (encode (l ++ d :: r)) ((encode l).length + i)) stops = false := by
    rw [byteAt, getD_at l d r hi]
    apply hstop
    rw [List.getD_eq_getElem _ _ (by rw [String.length_utf8EncodeChar]; exact hi)]
    exact List.getElem_mem _
  have hdig : isDigitAt (encode (l ++ d :: r)) (encode l).length = true := by
    rw [isDigitAt, classifyAt_char]
    exact hd
  have hws : isWhitespaceAt (encode (l ++ d :: r)) (encode l).length = false := by
    rw [isWhitespaceAt, classifyAt_char]
    exact digit_not_whitespace_codepoint hd
  obtain ⟨hin, hcont⟩ := continuation_after_lead
    (show (encode (l ++ d :: r)).drop (encode l).length = String.utf8EncodeChar d ++ encode r by
      rw [drop_encode_left, encode_cons]) hsize
  have hstep : parseStep (encode (l ++ d :: r)) (encode l).length state = (state, (encode l).length + 1) := by
    rcases hst with rfl | rfl <;> rw [parseStep, if_pos hdig]
  have hne : state ≠ .error := by rcases hst with rfl | rfl <;> decide
  have hfirst := hbyte 0 hpos
  rw [Nat.add_zero] at hfirst
  rw [tokenLoop, dif_pos ⟨hlt, hne⟩, hws, hfirst, if_neg Bool.false_ne_true, if_neg Bool.false_ne_true, hstep]
  exact tokenLoop_inside hin (hbyte 1 (by omega)) hcont hst

theorem exists_first {P : Char → Prop} [DecidablePred P] {cs : List Char} (h : ∃ c ∈ cs, ¬ P c) :
    ∃ p d q, cs = p ++ d :: q ∧ (∀ c ∈ p, P c) ∧ ¬ P d := by
  induction cs with
  | nil => simp at h
  | cons c cs ih =>
      by_cases hc : P c
      · obtain ⟨e, he, hne⟩ := h
        rcases List.mem_cons.mp he with rfl | he
        · exact absurd hc hne
        · obtain ⟨p, d, q, rfl, hp, hd⟩ := ih ⟨e, he, hne⟩
          exact ⟨c :: p, d, q, rfl, List.forall_mem_cons.mpr ⟨hc, hp⟩, hd⟩
      · exact ⟨[], c, cs, rfl, by simp, hc⟩

namespace NumberText

variable (t : NumberText)

def allDigits : List Char := t.digits ++ t.fraction.getD []

theorem body_cons : ∃ d ds, t.digits = d :: ds ∧ akUtf8IsDigit d.toNat = true ∧
    ∃ r, numberBody t.digits t.fraction = d :: r := by
  obtain ⟨d, ds, he⟩ := List.exists_cons_of_ne_nil t.digits_ne
  refine ⟨d, ds, he, t.digits_ok d (by rw [he]; exact List.mem_cons_self), ?_⟩
  cases hf : t.fraction with
  | none => exact ⟨ds, he⟩
  | some f => exact ⟨ds ++ '.' :: f, by rw [numberBody, he]; rfl⟩

theorem skipWhitespace_start : skipWhitespace t.buffer t.position = t.start := by
  obtain ⟨d, _, _, hd, r, hr⟩ := t.body_cons
  have hplus : akUtf8IsWhitespace '+'.toNat = false := by decide
  have hminus : akUtf8IsWhitespace '-'.toNat = false := by decide
  have hlex : ∃ c rest, t.lexeme ++ t.after = c :: rest ∧ akUtf8IsWhitespace c.toNat = false := by
    rw [lexeme, hr]
    rcases t.sign_ok with h | h | h <;> rw [h]
    · exact ⟨d, r ++ t.after, rfl, digit_not_whitespace_codepoint hd⟩
    · exact ⟨'+', d :: r ++ t.after, rfl, hplus⟩
    · exact ⟨'-', d :: r ++ t.after, rfl, hminus⟩
  obtain ⟨c, rest, he, hc⟩ := hlex
  rw [buffer, he]
  exact skipWhitespace_blank t.before rest t.blank_ok hc

theorem ends : EndsAt t.stops t.buffer (t.start + (encode t.lexeme).length) ∧
    isDigitAt t.buffer (t.start + (encode t.lexeme).length) = false := by
  have hpos : t.start + (encode t.lexeme).length = (encode (t.before ++ t.blank ++ t.lexeme)).length := by
    rw [start, encode_append (t.before ++ t.blank), List.length_append]
  rw [hpos, buffer, ← List.append_assoc]
  cases ha : t.after with
  | nil =>
      rw [List.append_nil]
      exact ⟨Or.inl le_rfl, isDigitAt_end le_rfl⟩
  | cons c r =>
      have hc := t.after_ok c (by rw [ha]; rfl)
      constructor
      · refine Or.inr (Or.inl ?_)
        rw [isWhitespaceAt, classifyAt_char]
        exact hc
      · rw [isDigitAt, classifyAt_char, ← Bool.not_eq_true]
        intro hd
        rw [digit_not_whitespace_codepoint hd] at hc
        exact Bool.false_ne_true hc

variable {t}

theorem fraction_digits {f : List Char} (hf : t.fraction = some f) :
    ∀ c ∈ f, akUtf8IsDigit c.toNat = true := t.fraction_ok f hf

theorem lexemeAt (h : ∀ c ∈ t.allDigits, c.toNat < 0x80) :
    LexemeAt t.stops t.buffer t.start (encode t.lexeme) := by
  obtain ⟨hend, hnot⟩ := t.ends
  have hbytes : ∀ b ∈ encode t.lexeme, numberByte b = true := by
    intro b hb
    rw [lexeme, encode_append, List.mem_append] at hb
    have hint : ∀ b ∈ encode t.digits, asciiDigit b = true :=
      encode_digits_ascii t.digits_ok (fun c hc => h c (List.mem_append_left _ hc))
    rcases hb with hb | hb
    · exact sign_numberByte (encode_sign t.sign_ok) b hb
    · cases hf : t.fraction with
      | none => rw [hf, numberBody] at hb; exact numberByte_of_digit (hint b hb)
      | some f =>
          have hfrac : ∀ b ∈ encode f, asciiDigit b = true :=
            encode_digits_ascii (fraction_digits hf)
              (fun c hc => h c (List.mem_append_right _ (by rw [hf]; exact hc)))
          rw [hf, numberBody, encode_append, encode_period, List.mem_append, List.mem_cons] at hb
          rcases hb with hb | rfl | hb
          · exact numberByte_of_digit (hint b hb)
          · rfl
          · exact numberByte_of_digit (hfrac b hb)
  refine ⟨⟨encode t.after, ?_⟩, fun b hb => (numberByte_spec b (hbytes b hb)).1, fun b hb => ?_, hend, fun hone => ?_⟩
  · rw [buffer, start, drop_encode_left, encode_append]
  · rw [inLexeme, (numberByte_spec b (hbytes b hb)).2, t.stops_ok b hb]
    rfl
  · rw [hone] at hnot
    exact hnot

theorem scanToken_lexeme (h : ∀ c ∈ t.allDigits, c.toNat < 0x80) :
    (scanToken (encode t.lexeme)).1 ≠ .error ∧ (scanToken (encode t.lexeme)).1.base = t.base := by
  have hint : ∀ b ∈ encode t.digits, asciiDigit b = true :=
    encode_digits_ascii t.digits_ok (fun c hc => h c (List.mem_append_left _ hc))
  have hdne : encode t.digits ≠ [] := by
    obtain ⟨d, ds, he, _⟩ := t.body_cons
    rw [he]
    exact encode_cons_ne_nil d ds
  rw [lexeme, encode_append, base]
  cases hf : t.fraction with
  | none =>
      have hi : IsInteger (encode t.sign ++ encode t.digits) :=
        ⟨_, _, encode_sign t.sign_ok, hdne, hint, rfl⟩
      rw [numberBody, (scanToken_integer_iff _).mpr hi]
      exact ⟨by decide, rfl⟩
  | some f =>
      have hfrac : ∀ b ∈ encode f, asciiDigit b = true :=
        encode_digits_ascii (fraction_digits hf)
          (fun c hc => h c (List.mem_append_right _ (by rw [hf]; exact hc)))
      have hr : IsReal (encode t.sign ++ (encode t.digits ++ 0x2E :: encode f)) :=
        ⟨_, _, _, encode_sign t.sign_ok, hdne, hint, hfrac, rfl⟩
      rw [numberBody, encode_append, encode_period, (scanToken_real_iff _).mpr hr]
      exact ⟨by decide, rfl⟩

theorem readsWhole_of_ascii (h : ∀ c ∈ t.allDigits, c.toNat < 0x80) : t.ReadsWhole := by
  obtain ⟨hok, hbase⟩ := scanToken_lexeme h
  have hne : encode t.lexeme ≠ [] := by
    obtain ⟨d, _, _, _, r, hr⟩ := t.body_cons
    rw [lexeme, encode_append, hr]
    exact List.append_ne_nil_of_right_ne_nil _ (encode_cons_ne_nil d r)
  have hread := readStaticBaseType_scanToken ⟨t.buffer, t.position⟩
    (t.skipWhitespace_start.symm ▸ lexemeAt h) hne
  rw [if_neg hok, hbase, t.skipWhitespace_start] at hread
  exact hread

variable (t)

theorem tokenStart_integer : tokenStart t.buffer t.start = (.integer, t.start + (encode t.sign).length) := by
  obtain ⟨d, _, _, hd, r, hr⟩ := t.body_cons
  have hbuf : t.buffer = encode (t.before ++ t.blank ++ t.sign ++ d :: (r ++ t.after)) := by
    rw [buffer, lexeme, hr]
    simp
  have hdig : isDigitAt t.buffer (t.start + (encode t.sign).length) = true := by
    have hpos : t.start + (encode t.sign).length = (encode (t.before ++ t.blank ++ t.sign)).length := by
      rw [start, encode_append (t.before ++ t.blank), List.length_append]
    rw [hbuf, hpos, isDigitAt, classifyAt_char]
    exact hd
  have hdrop : t.buffer.drop t.start = encode t.sign ++ encode (d :: (r ++ t.after)) := by
    rw [hbuf, List.append_assoc, start, drop_encode_left, encode_append]
  rw [tokenStart_eq]
  rcases t.sign_ok with h | h
  · rw [h, encode_nil, List.length_nil, Nat.add_zero] at hdig
    have hnot : isSignByte (byteAt t.buffer t.start) = false := by
      rw [← Bool.not_eq_true]
      intro hsign
      have hlt : t.start < t.buffer.length := by
        by_contra hge
        rw [isDigitAt_end (by omega)] at hdig
        exact Bool.false_ne_true hdig
      rw [isSignByte_iff] at hsign
      rw [isDigitAt_ascii (byteAt_eq hlt) (by omega), asciiDigit_iff] at hdig
      omega
    rw [hnot, if_neg Bool.false_ne_true, hdig, if_pos rfl, h]
    rfl
  · obtain ⟨b, hb, hsign⟩ : ∃ b, encode t.sign = [b] ∧ isSignByte b = true := by
      rcases h with h | h
      · exact ⟨0x2B, by rw [h]; rfl, rfl⟩
      · exact ⟨0x2D, by rw [h]; rfl, rfl⟩
    rw [hb, List.singleton_append] at hdrop
    rw [hb, List.length_singleton] at hdig ⊢
    rw [byteAt_of_drop hdrop, if_pos hsign, hdig, if_pos rfl]

theorem split_wide (h : ∃ c ∈ t.allDigits, ¬ c.toNat < 0x80) :
    ∃ p d q, numberBody t.digits t.fraction = p ++ d :: q ∧ akUtf8IsDigit d.toNat = true ∧ ¬ d.toNat < 0x80 ∧
      (∀ b ∈ encode p, numberByte b = true) ∧
      ((scan .integer (encode p)).1 = .integer ∨ (scan .integer (encode p)).1 = .real) := by
  by_cases hint : ∃ c ∈ t.digits, ¬ c.toNat < 0x80
  · obtain ⟨p, d, q, he, hp, hd⟩ := exists_first hint
    have hpd : ∀ b ∈ encode p, asciiDigit b = true :=
      encode_digits_ascii (fun c hc => t.digits_ok c (by rw [he]; exact List.mem_append_left _ hc)) hp
    have hdd := t.digits_ok d (by rw [he]; exact List.mem_append_right _ List.mem_cons_self)
    cases hf : t.fraction with
    | none =>
        exact ⟨p, d, q, he, hdd, hd, fun b hb => numberByte_of_digit (hpd b hb),
          Or.inl ((scan_integer_iff _).mpr hpd)⟩
    | some f =>
        refine ⟨p, d, q ++ '.' :: f, ?_, hdd, hd, fun b hb => numberByte_of_digit (hpd b hb),
          Or.inl ((scan_integer_iff _).mpr hpd)⟩
        rw [numberBody, he, List.append_assoc, List.cons_append]
  · push Not at hint
    have hids : ∀ b ∈ encode t.digits, asciiDigit b = true := encode_digits_ascii t.digits_ok hint
    obtain ⟨c, hc, hwide⟩ := h
    rcases List.mem_append.mp hc with hc | hc
    · exact absurd (hint c hc) hwide
    cases hf : t.fraction with
    | none => rw [hf] at hc; simp at hc
    | some f =>
        rw [hf, Option.getD_some] at hc
        obtain ⟨p, d, q, he, hp, hd⟩ := exists_first (P := fun c : Char => c.toNat < 0x80) ⟨c, hc, hwide⟩
        have hpd : ∀ b ∈ encode p, asciiDigit b = true :=
          encode_digits_ascii (fun c hc => fraction_digits hf c (by rw [he]; exact List.mem_append_left _ hc)) hp
        refine ⟨t.digits ++ '.' :: p, d, q, by rw [numberBody, he]; simp,
          fraction_digits hf d (by rw [he]; exact List.mem_append_right _ List.mem_cons_self), hd, ?_, Or.inr ?_⟩
        · intro b hb
          rw [encode_append, encode_period, List.mem_append, List.mem_cons] at hb
          rcases hb with hb | rfl | hb
          · exact numberByte_of_digit (hids b hb)
          · rfl
          · exact numberByte_of_digit (hpd b hb)
        · rw [encode_append, encode_period]
          exact (scan_integer_real_iff _).mpr ⟨_, _, hids, hpd, rfl⟩

theorem not_readsWhole_of_wide (h : ∃ c ∈ t.allDigits, ¬ c.toNat < 0x80) : ¬ t.ReadsWhole := by
  obtain ⟨p, d, q, he, hdig, hwide, hbytes, hscan⟩ := t.split_wide h
  have hmem : ∀ b, b ∈ encode p ∨ b ∈ String.utf8EncodeChar d → isStopSymbol b t.stops = false := by
    intro b hb
    apply t.stops_ok
    rw [he, encode_append, encode_append, encode_cons, List.mem_append, List.mem_append, List.mem_append]
    rcases hb with hb | hb
    · exact Or.inr (Or.inl hb)
    · exact Or.inr (Or.inr (Or.inl hb))
  have hbuf : t.buffer = encode (t.before ++ t.blank ++ t.sign ++ p ++ d :: (q ++ t.after)) := by
    rw [buffer, lexeme, he]
    simp
  have hpos : t.start + (encode t.sign).length = (encode (t.before ++ t.blank ++ t.sign)).length := by
    rw [start, encode_append (t.before ++ t.blank), List.length_append]
  have hdrop : t.buffer.drop (t.start + (encode t.sign).length) = encode p ++ encode (d :: (q ++ t.after)) := by
    rw [hbuf, hpos, List.append_assoc _ p, drop_encode_left, encode_append]
  have hne : ¬ (scan .integer (encode p)).1 = .error := by
    rcases hscan with h | h <;> rw [h] <;> decide
  have hin : ∀ b ∈ encode p, inLexeme t.stops b = true := by
    intro b hb
    rw [inLexeme, (numberByte_spec b (hbytes b hb)).2, hmem b (Or.inl hb)]
    rfl
  have hloop := tokenLoop_append hdrop (fun b hb => (numberByte_spec b (hbytes b hb)).1) hin .integer
  rw [if_neg hne] at hloop
  have herr : (tokenLoop t.stops t.buffer (t.start + (encode t.sign).length) .integer).1 = .error := by
    rw [hloop, hpos, ← List.length_append, ← encode_append, hbuf]
    exact tokenLoop_wideDigit _ _ hdig hwide (fun b hb => hmem b (Or.inr hb)) hscan
  intro hread
  have hsucc := congrArg (fun r => r.1.success) hread
  simp only [akScannerReadStaticBaseType, t.skipWhitespace_start, t.tokenStart_integer] at hsucc
  split_ifs at hsucc
  all_goals exact Bool.false_ne_true hsucc

/-- A number is read whole exactly if all its digits are ASCII: the scanner takes
any digit for the start of a number but goes on by single bytes. -/
theorem readsWhole_iff (t : NumberText) : t.ReadsWhole ↔ ∀ c ∈ t.allDigits, c.toNat < 0x80 := by
  constructor
  · intro h c hc
    by_contra hwide
    exact t.not_readsWhole_of_wide ⟨c, hc, hwide⟩ h
  · exact readsWhole_of_ascii

def arabicOne : NumberText where
  before := []
  blank := []
  sign := []
  digits := [Char.ofNat 0x661]
  fraction := none
  after := []
  stops := []
  blank_ok := by simp
  sign_ok := Or.inl rfl
  digits_ne := by simp
  digits_ok := fun c hc => by rw [List.mem_singleton.mp hc]; decide
  fraction_ok := by simp
  after_ok := by simp
  stops_ok := by simp [isStopSymbol]

theorem arabicOne_not_readsWhole : ¬ arabicOne.ReadsWhole :=
  arabicOne.not_readsWhole_of_wide ⟨Char.ofNat 0x661, by decide, by decide⟩

end NumberText

end Ak24.ScannerDigits
