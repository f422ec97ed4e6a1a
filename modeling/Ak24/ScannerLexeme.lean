import Ak24.ScannerSkip

namespace Ak24.ScannerLexeme

open Utf8Model Utf8Validity Utf8Boundary ScannerModel ScannerCursor ScannerSkip

def asciiWhitespace (c : UInt8) : Bool := c == 0x20 || c == 0x09 || c == 0x0A || c == 0x0D

def asciiDigit (c : UInt8) : Bool := 0x30 ≤ c && c ≤ 0x39

inductive IsSign : List UInt8 → Prop
  | none : IsSign []
  | plus : IsSign [0x2B]
  | minus : IsSign [0x2D]

def IsInteger (l : List UInt8) : Prop :=
  ∃ sign digits, IsSign sign ∧ digits ≠ [] ∧ (∀ d ∈ digits, asciiDigit d = true) ∧ l = sign ++ digits

def IsReal (l : List UInt8) : Prop :=
  ∃ sign digits fraction, IsSign sign ∧ digits ≠ [] ∧ (∀ d ∈ digits, asciiDigit d = true) ∧
    (∀ d ∈ fraction, asciiDigit d = true) ∧ l = sign ++ (digits ++ 0x2E :: fraction)

def StartsNumber (l : List UInt8) : Prop :=
  ∃ sign d rest, IsSign sign ∧ asciiDigit d = true ∧ l = sign ++ d :: rest

def Viable (l : List UInt8) : Prop := ∃ rest, IsInteger (l ++ rest) ∨ IsReal (l ++ rest)

def oneMore (r : ParseState × Nat) : ParseState × Nat := (r.1, r.2 + 1)

def scan : ParseState → List UInt8 → ParseState × Nat
  | state, [] => (state, 0)
  | .integer, c :: cs =>
    if asciiDigit c then oneMore (scan .integer cs)
    else if c = 0x2E then oneMore (scan .real cs)
    else (.error, 0)
  | .real, c :: cs => if asciiDigit c then oneMore (scan .real cs) else (.error, 0)
  | .symbol, _ :: cs => oneMore (scan .symbol cs)
  | .start, _ :: _ | .sign, _ :: _ | .error, _ :: _ => (.error, 0)

def isSignByte (c : UInt8) : Bool := c == 0x2B || c == 0x2D

def scanToken : List UInt8 → ParseState × Nat
  | [] => (.symbol, 0)
  | c :: cs =>
    if isSignByte c then oneMore (scan (if cs.head?.any asciiDigit then .integer else .symbol) cs)
    else scan (if asciiDigit c then .integer else .symbol) (c :: cs)

theorem asciiWhitespace_iff (c : UInt8) :
    asciiWhitespace c = true ↔ c.toNat = 0x20 ∨ c.toNat = 0x09 ∨ c.toNat = 0x0A ∨ c.toNat = 0x0D := by
  simp [asciiWhitespace, ← UInt8.toNat_inj, or_assoc]

theorem asciiDigit_iff (c : UInt8) : asciiDigit c = true ↔ 0x30 ≤ c.toNat ∧ c.toNat ≤ 0x39 := by
  simp [asciiDigit, UInt8.le_iff_toNat_le]

theorem isSignByte_iff (c : UInt8) : isSignByte c = true ↔ c.toNat = 0x2B ∨ c.toNat = 0x2D := by
  simp [isSignByte, ← UInt8.toNat_inj]

@[simp] theorem oneMore_fst (r : ParseState × Nat) : (oneMore r).1 = r.1 := rfl

@[simp] theorem oneMore_snd (r : ParseState × Nat) : (oneMore r).2 = r.2 + 1 := rfl

@[simp] theorem scan_nil (state : ParseState) : scan state [] = (state, 0) := by cases state <;> rfl

theorem scan_integer_cons (c : UInt8) (cs : List UInt8) : scan .integer (c :: cs) =
    if asciiDigit c then oneMore (scan .integer cs)
    else if c = 0x2E then oneMore (scan .real cs)
    else (.error, 0) := rfl

theorem scan_real_cons (c : UInt8) (cs : List UInt8) : scan .real (c :: cs) =
    if asciiDigit c then oneMore (scan .real cs) else (.error, 0) := rfl

theorem scan_symbol_cons (c : UInt8) (cs : List UInt8) : scan .symbol (c :: cs) = oneMore (scan .symbol cs) := rfl

@[simp] theorem scan_symbol (l : List UInt8) : scan .symbol l = (.symbol, l.length) := by
  induction l with
  | nil => rfl
  | cons c cs ih => rw [scan_symbol_cons, ih]; rfl

theorem scan_integer_digit {c : UInt8} (hc : asciiDigit c = true) (cs : List UInt8) :
    scan .integer (c :: cs) = oneMore (scan .integer cs) := by
  rw [scan_integer_cons, if_pos hc]

theorem scan_integer_period (cs : List UInt8) : scan .integer (0x2E :: cs) = oneMore (scan .real cs) := by
  rw [scan_integer_cons, if_neg (by decide), if_pos rfl]

theorem scan_real_digit {c : UInt8} (hc : asciiDigit c = true) (cs : List UInt8) :
    scan .real (c :: cs) = oneMore (scan .real cs) := by
  rw [scan_real_cons, if_pos hc]

theorem scan_real_iff (l : List UInt8) : (scan .real l).1 = .real ↔ ∀ d ∈ l, asciiDigit d = true := by
  induction l with
  | nil => simp
  | cons c cs ih =>
      cases hc : asciiDigit c with
      | true => simp [scan_real_cons, hc, ih]
      | false => simp [scan_real_cons, hc]

theorem scan_real_cases (l : List UInt8) : (scan .real l).1 = .real ∨ (scan .real l).1 = .error := by
  induction l with
  | nil => exact Or.inl rfl
  | cons c cs ih =>
      rw [scan_real_cons]
      split_ifs
      · exact ih
      · exact Or.inr rfl

theorem scan_integer_iff (l : List UInt8) : (scan .integer l).1 = .integer ↔ ∀ d ∈ l, asciiDigit d = true := by
  induction l with
  | nil => simp
  | cons c cs ih =>
      cases hc : asciiDigit c with
      | true => simp [scan_integer_cons, hc, ih]
      | false =>
          refine iff_of_false ?_ (by simp [hc])
          by_cases hp : c = 0x2E
          · rw [hp, scan_integer_period, oneMore_fst]
            rcases scan_real_cases cs with h | h <;> rw [h] <;> decide
          · rw [scan_integer_cons, if_neg (by rw [hc]; decide), if_neg hp]
            decide

theorem scan_integer_real_iff (l : List UInt8) : (scan .integer l).1 = .real ↔
    ∃ digits fraction, (∀ d ∈ digits, asciiDigit d = true) ∧ (∀ d ∈ fraction, asciiDigit d = true) ∧
      l = digits ++ 0x2E :: fraction := by
  induction l with
  | nil => simp
  | cons c cs ih =>
      rw [scan_integer_cons]
      split_ifs with hc hp
      · rw [oneMore_fst, ih]
        constructor
        · rintro ⟨digits, fraction, hd, hf, rfl⟩
          exact ⟨c :: digits, fraction, List.forall_mem_cons.mpr ⟨hc, hd⟩, hf, rfl⟩
        · rintro ⟨digits, fraction, hd, hf, he⟩
          cases digits with
          | nil =>
              obtain ⟨rfl, rfl⟩ := List.cons.inj he
              exact absurd hc (by decide)
          | cons d digits =>
              obtain ⟨rfl, rfl⟩ := List.cons.inj he
              exact ⟨digits, fraction, (List.forall_mem_cons.mp hd).2, hf, rfl⟩
      · subst hp
        rw [oneMore_fst, scan_real_iff]
        constructor
        · exact fun h => ⟨[], cs, by simp, h, rfl⟩
        · rintro ⟨digits, fraction, hd, hf, he⟩
          cases digits with
          | nil => exact (List.cons.inj he).2 ▸ hf
          | cons d digits =>
              rw [(List.cons.inj he).1] at hc
              exact absurd (hd d List.mem_cons_self) hc
      · refine iff_of_false (by decide) ?_
        rintro ⟨digits, fraction, hd, hf, he⟩
        cases digits with
        | nil => exact hp (List.cons.inj he).1
        | cons d digits =>
            rw [(List.cons.inj he).1] at hc
            exact hc (hd d List.mem_cons_self)

theorem scan_integer_cases (l : List UInt8) :
    (scan .integer l).1 = .integer ∨ (scan .integer l).1 = .real ∨ (scan .integer l).1 = .error := by
  induction l with
  | nil => exact Or.inl rfl
  | cons c cs ih =>
      rw [scan_integer_cons]
      split_ifs
      · exact ih
      · exact Or.inr (scan_real_cases cs)
      · exact Or.inr (Or.inr rfl)

theorem scan_length {state : ParseState} {l : List UInt8} (h : (scan state l).1 ≠ .error) :
    (scan state l).2 = l.length := by
  induction l generalizing state with
  | nil => simp
  | cons c cs ih =>
      cases state with
      | start | sign | error => exact absurd rfl h
      | symbol => simp
      | integer =>
          rw [scan_integer_cons] at h ⊢
          split_ifs at h ⊢
          · rw [oneMore_snd, ih h, List.length_cons]
          · rw [oneMore_snd, ih h, List.length_cons]
          · exact absurd rfl h
      | real =>
          rw [scan_real_cons] at h ⊢
          split_ifs at h ⊢
          · rw [oneMore_snd, ih h, List.length_cons]
          · exact absurd rfl h

theorem scan_append_error {state : ParseState} {p : List UInt8} (q : List UInt8) (hs : state ≠ .error)
    (h : (scan state p).1 = .error) : (scan state (p ++ q)).1 = .error := by
  induction p generalizing state with
  | nil => exact absurd (by simpa using h) hs
  | cons c cs ih =>
      cases state with
      | start | sign | error => rfl
      | symbol => simp at h
      | integer =>
          rw [List.cons_append, scan_integer_cons]
          rw [scan_integer_cons] at h
          split_ifs at h ⊢
          · exact ih (by decide) h
          · exact ih (by decide) h
          · rfl
      | real =>
          rw [List.cons_append, scan_real_cons]
          rw [scan_real_cons] at h
          split_ifs at h ⊢
          · exact ih (by decide) h
          · rfl

theorem scan_error {state : ParseState} {l : List UInt8} (hs : state = .integer ∨ state = .real)
    (h : (scan state l).1 = .error) : (scan state l).2 < l.length ∧
      (scan state (l.take (scan state l).2)).1 ≠ .error ∧
      (scan state (l.take ((scan state l).2 + 1))).1 = .error := by
  induction l generalizing state with
  | nil => rcases hs with rfl | rfl <;> simp at h
  | cons c cs ih =>
      rcases hs with rfl | rfl
      · rw [scan_integer_cons] at h ⊢
        split_ifs at h ⊢ with hc hp
        · obtain ⟨h1, h2, h3⟩ := ih (Or.inl rfl) h
          exact ⟨by simpa using h1, by simpa [scan_integer_digit hc] using h2,
            by simpa [scan_integer_digit hc] using h3⟩
        · obtain ⟨h1, h2, h3⟩ := ih (Or.inr rfl) h
          subst hp
          exact ⟨by simpa using h1, by simpa [scan_integer_period] using h2,
            by simpa [scan_integer_period] using h3⟩
        · exact ⟨by simp, by simp, by simp [scan_integer_cons, hc, hp]⟩
      · rw [scan_real_cons] at h ⊢
        split_ifs at h ⊢ with hc
        · obtain ⟨h1, h2, h3⟩ := ih (Or.inr rfl) h
          exact ⟨by simpa using h1, by simpa [scan_real_digit hc] using h2,
            by simpa [scan_real_digit hc] using h3⟩
        · exact ⟨by simp, by simp, by simp [scan_real_cons, hc]⟩

theorem digit_not_sign (c : UInt8) (h : asciiDigit c = true) : isSignByte c = false := by
  rw [asciiDigit_iff] at h
  rw [← Bool.not_eq_true, isSignByte_iff]
  omega

theorem scanToken_number {sign : List UInt8} (hsign : IsSign sign) {d : UInt8} (hd : asciiDigit d = true)
    (rest : List UInt8) : scanToken (sign ++ d :: rest) =
      ((scan .integer (d :: rest)).1, sign.length + (scan .integer (d :: rest)).2) := by
  cases hsign with
  | none =>
      rw [List.nil_append, scanToken, if_neg (by rw [digit_not_sign d hd]; decide), if_pos hd]
      simp
  | plus =>
      rw [List.singleton_append, scanToken, if_pos (by decide), List.head?_cons, Option.any_some, if_pos hd]
      simp [oneMore, Nat.add_comm]
  | minus =>
      rw [List.singleton_append, scanToken, if_pos (by decide), List.head?_cons, Option.any_some, if_pos hd]
      simp [oneMore, Nat.add_comm]

theorem scanToken_symbol {l : List UInt8} (h : ¬ StartsNumber l) : scanToken l = (.symbol, l.length) := by
  cases l with
  | nil => rfl
  | cons c cs =>
      rw [scanToken]
      split_ifs with hs hd hd
      · exfalso
        cases cs with
        | nil => simp at hd
        | cons d rest =>
            rw [isSignByte, Bool.or_eq_true, beq_iff_eq, beq_iff_eq] at hs
            rcases hs with rfl | rfl
            · exact h ⟨[0x2B], d, rest, .plus, by simpa using hd, rfl⟩
            · exact h ⟨[0x2D], d, rest, .minus, by simpa using hd, rfl⟩
      · simp [oneMore]
      · exact absurd ⟨[], c, cs, .none, hd, rfl⟩ h
      · simp

theorem scanToken_integer_iff (l : List UInt8) : (scanToken l).1 = .integer ↔ IsInteger l := by
  constructor
  · intro h
    by_cases hn : StartsNumber l
    · obtain ⟨sign, d, rest, hsign, hd, rfl⟩ := hn
      rw [scanToken_number hsign hd] at h
      exact ⟨sign, d :: rest, hsign, by simp, (scan_integer_iff _).mp h, rfl⟩
    · rw [scanToken_symbol hn] at h
      exact ParseState.noConfusion h
  · rintro ⟨sign, digits, hsign, hne, hd, rfl⟩
    cases digits with
    | nil => exact absurd rfl hne
    | cons d rest =>
        rw [scanToken_number hsign (hd d List.mem_cons_self)]
        exact (scan_integer_iff _).mpr hd

theorem scanToken_real_iff (l : List UInt8) : (scanToken l).1 = .real ↔ IsReal l := by
  constructor
  · intro h
    by_cases hn : StartsNumber l
    · obtain ⟨sign, d, rest, hsign, hd, rfl⟩ := hn
      rw [scanToken_number hsign hd] at h
      obtain ⟨digits, fraction, hds, hf, he⟩ := (scan_integer_real_iff _).mp h
      refine ⟨sign, digits, fraction, hsign, ?_, hds, hf, by rw [he]⟩
      rintro rfl
      rw [(List.cons.inj he).1] at hd
      exact absurd hd (by decide)
    · rw [scanToken_symbol hn] at h
      exact ParseState.noConfusion h
  · rintro ⟨sign, digits, fraction, hsign, hne, hd, hf, rfl⟩
    cases digits with
    | nil => exact absurd rfl hne
    | cons d rest =>
        rw [List.cons_append, scanToken_number hsign (hd d List.mem_cons_self)]
        exact (scan_integer_real_iff _).mpr ⟨d :: rest, fraction, hd, hf, rfl⟩

theorem scanToken_symbol_iff (l : List UInt8) : (scanToken l).1 = .symbol ↔ ¬ StartsNumber l := by
  constructor
  · rintro h ⟨sign, d, rest, hsign, hd, rfl⟩
    rw [scanToken_number hsign hd] at h
    rcases scan_integer_cases (d :: rest) with h' | h' | h' <;> rw [h'] at h <;> exact absurd h (by decide)
  · intro h
    rw [scanToken_symbol h]

theorem scanToken_length {l : List UInt8} (h : (scanToken l).1 ≠ .error) : (scanToken l).2 = l.length := by
  by_cases hn : StartsNumber l
  · obtain ⟨sign, d, rest, hsign, hd, rfl⟩ := hn
    rw [scanToken_number hsign hd] at h ⊢
    rw [scan_length h, List.length_append]
  · rw [scanToken_symbol hn]

theorem scanToken_error {l : List UInt8} (h : (scanToken l).1 = .error) : (scanToken l).2 < l.length ∧
    Viable (l.take (scanToken l).2) ∧ ¬ Viable (l.take ((scanToken l).2 + 1)) := by
  by_cases hn : StartsNumber l
  · obtain ⟨sign, d, rest, hsign, hd, rfl⟩ := hn
    rw [scanToken_number hsign hd] at h ⊢
    obtain ⟨hlt, hok, herr⟩ := scan_error (Or.inl rfl) h
    obtain ⟨m, hm⟩ : ∃ m, (scan .integer (d :: rest)).2 = m + 1 := by
      rw [scan_integer_digit hd]
      exact ⟨_, rfl⟩
    have htake (k : Nat) : (sign ++ d :: rest).take (sign.length + (k + 1)) = sign ++ d :: rest.take k := by
      rw [List.take_length_add_append, List.take_succ_cons]
    simp only [hm, List.take_succ_cons] at hlt hok herr ⊢
    refine ⟨by rw [List.length_append]; omega, ?_, ?_⟩
    · rw [htake]
      refine ⟨[], ?_⟩
      rw [List.append_nil]
      have hscan := scanToken_number hsign hd (rest.take m)
      rcases scan_integer_cases (d :: rest.take m) with hi | hr | he
      · exact Or.inl ((scanToken_integer_iff _).mp (by rw [hscan]; exact hi))
      · exact Or.inr ((scanToken_real_iff _).mp (by rw [hscan]; exact hr))
      · exact absurd he hok
    · rw [Nat.add_assoc, htake]
      rintro ⟨q, hq⟩
      have hscan := scanToken_number hsign hd (rest.take (m + 1) ++ q)
      have herr' := scan_append_error q (by decide) herr
      rw [List.append_assoc, List.cons_append, ← scanToken_integer_iff, ← scanToken_real_iff, hscan] at hq
      rw [List.cons_append] at herr'
      rcases hq with hq | hq <;> simp only [herr'] at hq <;> exact absurd hq (by decide)
  · rw [scanToken_symbol hn] at h
    exact ParseState.noConfusion h

variable {stops buf : List UInt8} {pos : Nat}

theorem whitespace_ascii (c : UInt8) (h : c.toNat < 0x80) : akUtf8IsWhitespace c.toNat = asciiWhitespace c := by
  rw [Bool.eq_iff_iff, asciiWhitespace_iff, akUtf8IsWhitespace]
  simp only [Bool.or_eq_true, Bool.and_eq_true, beq_iff_eq, decide_eq_true_eq]
  omega

theorem digit_ascii (c : UInt8) (h : c.toNat < 0x80) : akUtf8IsDigit c.toNat = asciiDigit c := by
  rw [Bool.eq_iff_iff, asciiDigit_iff, akUtf8IsDigit]
  simp only [digitRanges, List.any_cons, List.any_nil, Bool.or_eq_true, Bool.and_eq_true, decide_eq_true_eq,
    Bool.false_eq_true, or_false]
  omega

theorem digit_not_whitespace (c : UInt8) (h : asciiDigit c = true) : asciiWhitespace c = false := by
  rw [asciiDigit_iff] at h
  rw [← Bool.not_eq_true, asciiWhitespace_iff]
  omega

section Cursor

variable {c : UInt8} {rest : List UInt8} (hd : buf.drop pos = c :: rest)

include hd

theorem lt_of_drop : pos < buf.length := by
  have h := congrArg List.length hd
  rw [List.length_drop, List.length_cons] at h
  omega

theorem byteAt_of_drop : byteAt buf pos = c :=
  (List.cons.inj ((byteAt_eq (lt_of_drop hd)).symm.trans hd)).1

theorem drop_succ_of_drop : buf.drop (pos + 1) = rest :=
  (List.cons.inj ((byteAt_eq (lt_of_drop hd)).symm.trans hd)).2

theorem classifyAt_ascii (onCodepoint : Nat → Bool) (onByte : UInt8 → Bool) (hc : c.toNat < 0x80) :
    classifyAt onCodepoint onByte buf pos = onCodepoint c.toNat := by
  have hlt := lt_of_drop hd
  rw [classifyAt, if_neg (by omega), hd, decode_one hc]
  rfl

theorem isWhitespaceAt_ascii (hc : c.toNat < 0x80) : isWhitespaceAt buf pos = asciiWhitespace c := by
  rw [isWhitespaceAt, classifyAt_ascii hd _ _ hc, whitespace_ascii c hc]

theorem isDigitAt_ascii (hc : c.toNat < 0x80) : isDigitAt buf pos = asciiDigit c := by
  rw [isDigitAt, classifyAt_ascii hd _ _ hc, digit_ascii c hc]

theorem charByteLenAt_ascii (hc : c.toNat < 0x80) : charByteLenAt buf pos = 1 := by
  rw [charByteLenAt_eq (lt_of_drop hd), hd, decode_one hc]

end Cursor

def inLexeme (stops : List UInt8) (c : UInt8) : Bool := !asciiWhitespace c && !isStopSymbol c stops

def EndsAt (stops buf : List UInt8) (pos : Nat) : Prop :=
  buf.length ≤ pos ∨ isWhitespaceAt buf pos = true ∨ isStopSymbol (byteAt buf pos) stops = true

theorem tokenLoop_end (h : EndsAt stops buf pos) (state : ParseState) :
    tokenLoop stops buf pos state = (state, pos) := by
  rw [tokenLoop]
  split_ifs with h1 h2 h3
  · rfl
  · rfl
  · rcases h with h | h | h
    · omega
    · exact absurd h h2
    · exact absurd h h3
  · rfl

theorem tokenLoop_error (pos : Nat) : tokenLoop stops buf pos .error = (.error, pos) := by
  rw [tokenLoop, dif_neg (by simp)]

theorem tokenLoop_append {l rest : List UInt8} (hd : buf.drop pos = l ++ rest) (hascii : Ascii l)
    (hin : ∀ c ∈ l, inLexeme stops c = true) (state : ParseState) :
    tokenLoop stops buf pos state =
      if (scan state l).1 = .error then (.error, pos + (scan state l).2)
      else tokenLoop stops buf (pos + l.length) (scan state l).1 := by
  induction l generalizing pos state with
  | nil =>
      rw [scan_nil]
      split_ifs with he
      · rw [show state = .error from he]
        exact tokenLoop_error pos
      · rfl
  | cons c cs ih =>
      have hc := hascii c List.mem_cons_self
      have hlex := hin c List.mem_cons_self
      rw [inLexeme, Bool.and_eq_true, Bool.not_eq_true', Bool.not_eq_true'] at hlex
      have hnext (state : ParseState) : tokenLoop stops buf (pos + 1) state =
          if (oneMore (scan state cs)).1 = .error then (.error, pos + (oneMore (scan state cs)).2)
          else tokenLoop stops buf (pos + (c :: cs).length) (oneMore (scan state cs)).1 := by
        rw [oneMore_fst, oneMore_snd, List.length_cons, ← Nat.add_assoc, ← Nat.add_assoc, Nat.add_right_comm,
          Nat.add_right_comm pos cs.length]
        exact ih (drop_succ_of_drop hd) (fun b hb => hascii b (List.mem_cons_of_mem c hb))
          (fun b hb => hin b (List.mem_cons_of_mem c hb)) state
      by_cases he : state = .error
      · subst he
        exact tokenLoop_error pos
      rw [tokenLoop, dif_pos ⟨lt_of_drop hd, he⟩, isWhitespaceAt_ascii hd hc, byteAt_of_drop hd, hlex.1, hlex.2,
        if_neg Bool.false_ne_true, if_neg Bool.false_ne_true]
      cases state with
      | start | sign => exact tokenLoop_error pos
      | error => exact absurd rfl he
      | symbol =>
          rw [parseStep, charByteLenAt_ascii hd hc, if_neg one_ne_zero, scan_symbol_cons]
          exact hnext .symbol
      | integer =>
          rw [parseStep, isDigitAt_ascii hd hc, byteAt_of_drop hd, scan_integer_cons]
          by_cases hdig : asciiDigit c = true
          · rw [if_pos hdig, if_pos hdig]
            exact hnext .integer
          rw [if_neg hdig, if_neg hdig]
          by_cases hdot : c = 0x2E
          · rw [if_pos hdot, if_pos hdot]
            exact hnext .real
          · rw [if_neg hdot, if_neg hdot]
            exact tokenLoop_error pos
      | real =>
          rw [parseStep, isDigitAt_ascii hd hc, scan_real_cons]
          by_cases hdig : asciiDigit c = true
          · rw [if_pos hdig, if_pos hdig]
            exact hnext .real
          · rw [if_neg hdig, if_neg hdig]
            exact tokenLoop_error pos

/-- Over a whole ASCII lexeme the loop is the scan. -/
theorem tokenLoop_scan {l rest : List UInt8} (hd : buf.drop pos = l ++ rest) (hascii : Ascii l)
    (hin : ∀ c ∈ l, inLexeme stops c = true) (hend : EndsAt stops buf (pos + l.length)) (state : ParseState) :
    tokenLoop stops buf pos state = ((scan state l).1, pos + (scan state l).2) := by
  rw [tokenLoop_append hd hascii hin]
  split_ifs with he
  · rw [he]
  · rw [tokenLoop_end hend, scan_length he]

theorem isDigitAt_end (h : buf.length ≤ pos) : isDigitAt buf pos = false := by
  rw [isDigitAt, classifyAt, if_pos h]

theorem tokenStart_eq (buf : List UInt8) (pos : Nat) : tokenStart buf pos =
    if isSignByte (byteAt buf pos) then (if isDigitAt buf (pos + 1) then .integer else .symbol, pos + 1)
    else (if isDigitAt buf pos then .integer else .symbol, pos) := by
  have hsign : isSignByte (byteAt buf pos) = true ↔ byteAt buf pos = 0x2B ∨ byteAt buf pos = 0x2D := by
    rw [isSignByte, Bool.or_eq_true, beq_iff_eq, beq_iff_eq]
  rw [tokenStart]
  simp only [hsign]
  split_ifs with h1 h2 h3
  · rw [isDigitAt_end h2] at h3
    exact absurd h3 Bool.false_ne_true
  all_goals rfl

structure LexemeAt (stops buf : List UInt8) (start : Nat) (l : List UInt8) : Prop where
  here : ∃ rest, buf.drop start = l ++ rest
  ascii : Ascii l
  inside : ∀ c ∈ l, inLexeme stops c = true
  ends : EndsAt stops buf (start + l.length)
  lone : l.length = 1 → isDigitAt buf (start + 1) = false

theorem tokenLoop_scanToken {start : Nat} {l : List UInt8} (h : LexemeAt stops buf start l) (hne : l ≠ []) :
    tokenLoop stops buf (tokenStart buf start).2 (tokenStart buf start).1 =
      ((scanToken l).1, start + (scanToken l).2) := by
  obtain ⟨rest, hd⟩ := h.here
  cases l with
  | nil => exact absurd rfl hne
  | cons c cs =>
      have hc := h.ascii c List.mem_cons_self
      have hnext : isDigitAt buf (start + 1) = cs.head?.any asciiDigit := by
        cases cs with
        | nil => exact h.lone rfl
        | cons d ds =>
            exact isDigitAt_ascii (drop_succ_of_drop hd) (h.ascii d (by simp))
      rw [tokenStart_eq, byteAt_of_drop hd, hnext, isDigitAt_ascii hd hc, scanToken]
      cases hsign : isSignByte c with
      | true =>
          rw [if_pos rfl, if_pos rfl, tokenLoop_scan (drop_succ_of_drop hd)
            (fun b hb => h.ascii b (List.mem_cons_of_mem c hb))
            (fun b hb => h.inside b (List.mem_cons_of_mem c hb))
            (by have he := h.ends; rwa [List.length_cons, Nat.add_comm cs.length, ← Nat.add_assoc] at he),
            oneMore, Nat.add_assoc, Nat.add_comm 1]
      | false =>
          rw [if_neg Bool.false_ne_true, if_neg Bool.false_ne_true,
            tokenLoop_scan hd h.ascii h.inside h.ends]

theorem readStaticBaseType_scanToken (scanner : Scanner) {l : List UInt8}
    (h : LexemeAt stops scanner.buffer (skipWhitespace scanner.buffer scanner.position) l) (hne : l ≠ []) :
    akScannerReadStaticBaseType scanner stops =
      if (scanToken l).1 = .error then
        (readFailure scanner.position
          (skipWhitespace scanner.buffer scanner.position + (scanToken l).2), scanner)
      else
        (⟨true, scanner.position, 0,
          ⟨(scanToken l).1.base, some (skipWhitespace scanner.buffer scanner.position), l.length⟩⟩,
          { scanner with position := skipWhitespace scanner.buffer scanner.position + l.length }) := by
  have hloop := tokenLoop_scanToken h hne
  obtain ⟨rest, hd⟩ := h.here
  obtain ⟨c, cs, rfl⟩ := List.exists_cons_of_ne_nil hne
  have hlt := lt_of_drop hd
  have hstop := h.inside c List.mem_cons_self
  rw [inLexeme, Bool.and_eq_true, Bool.not_eq_true', Bool.not_eq_true'] at hstop
  simp only [akScannerReadStaticBaseType, hloop]
  rw [if_neg (by omega), byteAt_of_drop hd, hstop.2, if_neg Bool.false_ne_true]
  split_ifs with he h0
  · rfl
  · rw [scanToken_length he, List.length_cons] at h0
    omega
  · rw [scanToken_length he, Nat.add_sub_cancel_left]

def lexemeStart (buf : List UInt8) (pos : Nat) : Nat :=
  pos + ((buf.drop pos).takeWhile asciiWhitespace).length

def lexeme (stops buf : List UInt8) (pos : Nat) : List UInt8 :=
  (buf.drop (lexemeStart buf pos)).takeWhile (inLexeme stops)

theorem ascii_of_drop (h : Ascii buf) {c : UInt8} {rest : List UInt8} (hd : buf.drop pos = c :: rest) :
    c.toNat < 0x80 :=
  h c (List.mem_of_mem_drop (by rw [hd]; exact List.mem_cons_self))

theorem skipWhitespace_ascii (h : Ascii buf) (pos : Nat) : skipWhitespace buf pos = lexemeStart buf pos := by
  fun_induction skipWhitespace buf pos with
  | case1 pos hw hz => exact absurd hz (charByteLenAt_pos hw.1).ne'
  | case2 pos hw hz ih =>
      have hd := byteAt_eq hw.1
      have hc := ascii_of_drop h hd
      rw [ih, charByteLenAt_ascii hd hc, lexemeStart, lexemeStart, hd,
        List.takeWhile_cons_of_pos (by rw [← isWhitespaceAt_ascii hd hc]; exact hw.2), List.length_cons]
      omega
  | case3 pos hw =>
      rw [lexemeStart]
      by_cases hlt : pos < buf.length
      · have hd := byteAt_eq hlt
        have hc := ascii_of_drop h hd
        rw [hd, List.takeWhile_cons_of_neg (by rw [← isWhitespaceAt_ascii hd hc]; exact fun hw' => hw ⟨hlt, hw'⟩)]
        rfl
      · rw [List.drop_eq_nil_of_le (by omega)]
        rfl

theorem lexeme_ends (h : Ascii buf) (stops : List UInt8) (pos : Nat) :
    EndsAt stops buf (lexemeStart buf pos + (lexeme stops buf pos).length) := by
  have hsplit := (List.takeWhile_append_dropWhile (p := inLexeme stops)
    (l := buf.drop (lexemeStart buf pos))).symm
  have hdrop : buf.drop (lexemeStart buf pos + (lexeme stops buf pos).length) =
      (buf.drop (lexemeStart buf pos)).dropWhile (inLexeme stops) := by
    rw [← List.drop_drop]
    conv_lhs => rw [hsplit]
    exact List.drop_left
  cases hr : (buf.drop (lexemeStart buf pos)).dropWhile (inLexeme stops) with
  | nil => exact Or.inl (List.drop_eq_nil_iff.mp (hdrop.trans hr))
  | cons c cs =>
      rw [hr] at hdrop
      have hnot := List.head?_dropWhile_not (inLexeme stops) (buf.drop (lexemeStart buf pos))
      rw [hr] at hnot
      have hc : inLexeme stops c = false := by simpa using hnot
      rw [inLexeme, Bool.and_eq_false_iff, Bool.not_eq_false', Bool.not_eq_false'] at hc
      rcases hc with hw | hs
      · exact Or.inr (Or.inl (by rw [isWhitespaceAt_ascii hdrop (ascii_of_drop h hdrop)]; exact hw))
      · exact Or.inr (Or.inr (by rw [byteAt_of_drop hdrop]; exact hs))

theorem EndsAt.not_digit (h : Ascii buf) (hstops : ∀ c ∈ stops, asciiDigit c = false)
    (hend : EndsAt stops buf pos) : isDigitAt buf pos = false := by
  by_cases hlt : pos < buf.length
  · have hd := byteAt_eq hlt
    have hc := ascii_of_drop h hd
    rw [isDigitAt_ascii hd hc, ← Bool.not_eq_true]
    intro hdig
    rcases hend with hle | hw | hs
    · omega
    · rw [isWhitespaceAt_ascii hd hc, digit_not_whitespace _ hdig] at hw
      exact Bool.false_ne_true hw
    · rw [isStopSymbol, List.contains_iff_mem] at hs
      rw [hstops _ hs] at hdig
      exact Bool.false_ne_true hdig
  · exact isDigitAt_end (by omega)

theorem lexemeAt_ascii (h : Ascii buf) (hstops : ∀ c ∈ stops, asciiDigit c = false) (pos : Nat) :
    LexemeAt stops buf (lexemeStart buf pos) (lexeme stops buf pos) := by
  refine ⟨⟨_, (List.takeWhile_append_dropWhile (p := inLexeme stops)).symm⟩, ?_, ?_, lexeme_ends h stops pos, ?_⟩
  · intro c hc
    exact h c (List.mem_of_mem_drop (List.takeWhile_subset _ hc))
  · exact fun c hc => List.mem_takeWhile_imp hc
  · intro hone
    have hend := lexeme_ends h stops pos
    rw [hone] at hend
    exact hend.not_digit h hstops

theorem readStaticBaseType_empty {scanner : Scanner} (h : Ascii scanner.buffer)
    (hempty : lexeme stops scanner.buffer scanner.position = []) :
    akScannerReadStaticBaseType scanner stops =
      (readFailure scanner.position (lexemeStart scanner.buffer scanner.position), scanner) := by
  have hend := lexeme_ends h stops scanner.position
  have hskip := skipWhitespace_ascii h scanner.position
  obtain ⟨_, hnot⟩ := skipWhitespace_items scanner.buffer scanner.position
  rw [hempty, List.length_nil, Nat.add_zero] at hend
  rw [hskip] at hnot
  simp only [akScannerReadStaticBaseType, hskip]
  rcases hend with hle | hw | hs
  · rw [if_pos hle]
  · exact absurd (whitespaceItem_iff.mpr ⟨hw, rfl⟩) (hnot _)
  · rw [if_pos hs]
    split_ifs <;> rfl

theorem base_integer_iff {state : ParseState} : state.base = .integer ↔ state = .integer := by
  cases state <;> decide

theorem base_real_iff {state : ParseState} : state.base = .real ↔ state = .real := by
  cases state <;> decide

theorem not_isInteger_nil : ¬ IsInteger [] := by
  rw [← scanToken_integer_iff]
  decide

theorem not_isReal_nil : ¬ IsReal [] := by
  rw [← scanToken_real_iff]
  decide

theorem not_startsNumber_nil : ¬ StartsNumber [] := by
  rw [← scanToken_symbol_iff]
  decide

theorem scanToken_cases (l : List UInt8) : (scanToken l).1 = .integer ∨ (scanToken l).1 = .real ∨
    (scanToken l).1 = .symbol ∨ (scanToken l).1 = .error := by
  by_cases hn : StartsNumber l
  · obtain ⟨sign, d, rest, hsign, hd, rfl⟩ := hn
    rw [scanToken_number hsign hd]
    rcases scan_integer_cases (d :: rest) with h | h | h
    · exact Or.inl h
    · exact Or.inr (Or.inl h)
    · exact Or.inr (Or.inr (Or.inr h))
  · exact Or.inr (Or.inr (Or.inl ((scanToken_symbol_iff l).mpr hn)))

/-- The grammar of the static base types over an ASCII buffer, with the token
that is returned and the place of an error. -/
theorem readStaticBaseType_grammar (scanner : Scanner) (stops : List UInt8) (hascii : Ascii scanner.buffer)
    (hstops : ∀ c ∈ stops, asciiDigit c = false) :
    let l := lexeme stops scanner.buffer scanner.position
    let start := lexemeStart scanner.buffer scanner.position
    let r := akScannerReadStaticBaseType scanner stops
    (r.1.success = true ∧ r.1.data.base = .integer ↔ IsInteger l) ∧
    (r.1.success = true ∧ r.1.data.base = .real ↔ IsReal l) ∧
    (r.1.success = true ∧ r.1.data.base = .symbol ↔ l ≠ [] ∧ ¬ StartsNumber l) ∧
    (¬ IsInteger l → ¬ IsReal l → ¬ (l ≠ [] ∧ ¬ StartsNumber l) → r.1.success = false) ∧
    (r.1.success = true → r.1.data.data = some start ∧ r.1.data.byteLength = l.length ∧
      r.2 = { scanner with position := start + l.length }) ∧
    (r.1.success = false → StartsNumber l → ∃ n, r.1.errorPosition = start + n ∧ n < l.length ∧
      Viable (l.take n) ∧ ¬ Viable (l.take (n + 1))) := by
  intro l start r
  by_cases hne : l = []
  · have hr : r = (readFailure scanner.position start, scanner) := readStaticBaseType_empty hascii hne
    rw [hr, hne]
    refine ⟨?_, ?_, ?_, fun _ _ _ => rfl, fun h => absurd h Bool.false_ne_true,
      fun _ h => absurd h not_startsNumber_nil⟩
    · exact iff_of_false (fun h => Bool.false_ne_true h.1) not_isInteger_nil
    · exact iff_of_false (fun h => Bool.false_ne_true h.1) not_isReal_nil
    · exact iff_of_false (fun h => Bool.false_ne_true h.1) (fun h => h.1 rfl)
  have hskip := skipWhitespace_ascii hascii scanner.position
  have hr := readStaticBaseType_scanToken scanner (hskip ▸ lexemeAt_ascii hascii hstops scanner.position) hne
  rw [hskip] at hr
  rw [show r = _ from hr, ← scanToken_integer_iff, ← scanToken_real_iff, ← scanToken_symbol_iff]
  by_cases he : (scanToken l).1 = .error
  · rw [if_pos he, he]
    refine ⟨?_, ?_, ?_, fun _ _ _ => rfl, fun h => absurd h Bool.false_ne_true,
      fun _ _ => ⟨(scanToken l).2, rfl, scanToken_error he⟩⟩
    all_goals exact iff_of_false (fun h => Bool.false_ne_true h.1) (by simp)
  · rw [if_neg he]
    refine ⟨?_, ?_, ?_, ?_, fun _ => ⟨rfl, rfl, rfl⟩, fun h => absurd h (Ne.symm Bool.false_ne_true)⟩
    · exact ⟨fun h => base_integer_iff.mp h.2, fun h => ⟨rfl, base_integer_iff.mpr h⟩⟩
    · exact ⟨fun h => base_real_iff.mp h.2, fun h => ⟨rfl, base_real_iff.mpr h⟩⟩
    · constructor
      · rintro ⟨_, hb⟩
        refine ⟨hne, ?_⟩
        rcases scanToken_cases l with h | h | h | h
        · exact absurd (hb.symm.trans (base_integer_iff.mpr h)) (by decide)
        · exact absurd (hb.symm.trans (base_real_iff.mpr h)) (by decide)
        · exact h
        · exact absurd h he
      · exact fun h => ⟨rfl, by rw [h.2]; rfl⟩
    · intro hi hre hsym
      rcases scanToken_cases l with h | h | h | h
      · exact absurd h hi
      · exact absurd h hre
      · exact absurd ⟨hne, h⟩ hsym
      · exact absurd h he

theorem readStaticBaseType_grammar_real :
    (akScannerReadStaticBaseType ⟨[0x20, 0x2D, 0x37, 0x2E, 0x29], 0⟩ [0x29]).1.data.base = .real := by
  refine ((readStaticBaseType_grammar ⟨[0x20, 0x2D, 0x37, 0x2E, 0x29], 0⟩ [0x29] (by simp [Ascii])
    (by simp [asciiDigit])).2.1.mpr ?_).2
  exact ⟨[0x2D], [0x37], [], .minus, by simp, by simp [asciiDigit], by simp, rfl⟩

end Ak24.ScannerLexeme
