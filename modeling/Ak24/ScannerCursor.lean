import Ak24.ScannerModel
import Ak24.Utf8Boundary

namespace Ak24.ScannerCursor

open Utf8Model Utf8Validity Utf8Boundary ScannerModel

variable {buf : List UInt8} {pos : Nat}

theorem byteAt_eq (hlt : pos < buf.length) : buf.drop pos = byteAt buf pos :: buf.drop (pos + 1) := by
  rw [List.drop_eq_getElem_cons hlt, byteAt, List.getD_eq_getElem _ _ hlt]

theorem charByteLenAt_boundary (h : Boundary buf pos) (hlt : pos < buf.length) :
    0 < charByteLenAt buf pos ∧ Boundary buf (pos + charByteLenAt buf pos) := by
  obtain ⟨c, rest, hd, hn⟩ := h.next hlt
  have hl : charByteLenAt buf pos = c.utf8Size := by
    rw [charByteLenAt, if_neg (by omega), hd, ← akUtf8Decode_bytes, decode_utf8EncodeChar]
  rw [hl]
  exact ⟨c.utf8Size_pos, hn⟩

theorem skipWhitespace_spec (h : Boundary buf pos) :
    Boundary buf (skipWhitespace buf pos) ∧ pos ≤ skipWhitespace buf pos := by
  fun_induction skipWhitespace buf pos with
  | case1 pos hw hz => exact ⟨h, le_rfl⟩
  | case2 pos hw hz ih =>
      obtain ⟨hb, hle⟩ := ih (charByteLenAt_boundary h hw.1).2
      exact ⟨hb, by omega⟩
  | case3 pos hw => exact ⟨h, le_rfl⟩

theorem ascii_byteAt {cs : List Char} (hlt : pos < (encode cs).length)
    (hb : (byteAt (encode cs) pos).toNat < 0x80) :
    Boundary (encode cs) pos ∧ Boundary (encode cs) (pos + 1) :=
  ascii_boundary hlt hb

theorem classifyAt_continuation (onCodepoint : Nat → Bool) (onByte : UInt8 → Bool) (hlt : pos < buf.length)
    (hc : isContinuationByte (byteAt buf pos) = true) :
    classifyAt onCodepoint onByte buf pos = onByte (byteAt buf pos) := by
  rw [classifyAt, if_neg (by omega)]
  simp only [decode_continuation (byteAt_eq hlt) hc]
  rfl

theorem isWhitespaceAt_continuation (hlt : pos < buf.length)
    (hc : isContinuationByte (byteAt buf pos) = true) : isWhitespaceAt buf pos = false := by
  have hb := (isContinuationByte_iff _).mp hc
  rw [isWhitespaceAt, classifyAt_continuation _ _ hlt hc]
  simp only [Bool.or_eq_false_iff, beq_eq_false_iff_ne, ne_eq, ← UInt8.toNat_inj]
  refine ⟨⟨⟨?_, ?_⟩, ?_⟩, ?_⟩ <;> (simp; omega)

theorem isDigitAt_continuation (hlt : pos < buf.length)
    (hc : isContinuationByte (byteAt buf pos) = true) : isDigitAt buf pos = false := by
  have hb := (isContinuationByte_iff _).mp hc
  rw [isDigitAt, classifyAt_continuation _ _ hlt hc, Bool.and_eq_false_iff, decide_eq_false_iff_not,
    decide_eq_false_iff_not, UInt8.le_iff_toNat_le, UInt8.le_iff_toNat_le]
  right
  simp
  omega

def Ascii (bytes : List UInt8) : Prop := ∀ b ∈ bytes, b.toNat < 0x80

theorem isStopSymbol_continuation {stops : List UInt8} (hs : Ascii stops) {b : UInt8}
    (hc : isContinuationByte b = true) : isStopSymbol b stops = false := by
  have hb := (isContinuationByte_iff _).mp hc
  rw [isStopSymbol, ← Bool.not_eq_true, List.contains_iff_mem]
  intro hm
  have := hs b hm
  omega

/-- A number state that has stepped into the middle of a multi-byte digit
always ends in the error state. -/
theorem tokenLoop_inside {stops : List UInt8} (hlt : pos < buf.length)
    (hs : isStopSymbol (byteAt buf pos) stops = false)
    (hc : isContinuationByte (byteAt buf pos) = true) {state : ParseState}
    (hst : state = .integer ∨ state = .real) : (tokenLoop stops buf pos state).1 = .error := by
  have hb := (isContinuationByte_iff _).mp hc
  have hdot : ¬ byteAt buf pos = 0x2E := by
    intro h
    rw [h] at hb
    simp at hb
  have hne : state ≠ .error := by rcases hst with rfl | rfl <;> simp
  have hstep : parseStep buf pos state = (.error, pos) := by
    rcases hst with rfl | rfl <;> simp [parseStep, isDigitAt_continuation hlt hc, hdot]
  rw [tokenLoop, dif_pos ⟨hlt, hne⟩, isWhitespaceAt_continuation hlt hc, hs, hstep]
  simp only [Bool.false_eq_true, if_false]
  rw [tokenLoop, dif_neg (by simp)]

theorem byte_step (h : Boundary buf pos) (hlt : pos < buf.length) :
    Boundary buf (pos + 1) ∨
      pos + 1 < buf.length ∧ isContinuationByte (byteAt buf (pos + 1)) = true := by
  obtain ⟨c, rest, hd, hn⟩ := h.next hlt
  by_cases hs : c.utf8Size = 1
  · exact Or.inl (hs ▸ hn)
  · exact Or.inr (continuation_after_lead hd hs)

theorem parseStep_spec (h : Boundary buf pos) (hlt : pos < buf.length) (state : ParseState) :
    Boundary buf (parseStep buf pos state).2 ∨
      (parseStep buf pos state).2 < buf.length ∧
        isContinuationByte (byteAt buf (parseStep buf pos state).2) = true ∧
        ((parseStep buf pos state).1 = .integer ∨ (parseStep buf pos state).1 = .real) := by
  cases state with
  | start | sign | error => exact Or.inl h
  | symbol =>
      simp only [parseStep]
      split_ifs
      · exact Or.inl h
      · exact Or.inl (charByteLenAt_boundary h hlt).2
  | integer | real =>
      simp only [parseStep]
      split_ifs
      all_goals first
        | exact Or.inl h
        | exact (byte_step h hlt).imp id (fun hc => ⟨hc.1, hc.2, by simp⟩)

theorem tokenLoop_spec {stops : List UInt8} (hs : Ascii stops) (h : Boundary buf pos) {state : ParseState}
    (hne : (tokenLoop stops buf pos state).1 ≠ .error) :
    Boundary buf (tokenLoop stops buf pos state).2 ∧ pos ≤ (tokenLoop stops buf pos state).2 := by
  fun_induction tokenLoop stops buf pos state with
  | case1 pos state hl hw => exact ⟨h, le_rfl⟩
  | case2 pos state hl hw hst => exact ⟨h, le_rfl⟩
  | case3 pos state hl hw hst ih =>
      have hle : pos ≤ (parseStep buf pos state).2 := by
        rcases parseStep_progress buf pos state with ⟨_, he⟩ | hlt <;> omega
      rcases parseStep_spec h hl.1 state with hb | ⟨hlt, hc, hn⟩
      · obtain ⟨hb', hle'⟩ := ih hb hne
        exact ⟨hb', hle.trans hle'⟩
      · exact absurd (tokenLoop_inside hlt (isStopSymbol_continuation hs hc) hc hn) hne
  | case4 pos state hl => exact ⟨h, le_rfl⟩

theorem tokenStart_spec (h : Boundary buf pos) (hlt : pos < buf.length) :
    Boundary buf (tokenStart buf pos).2 ∧ pos ≤ (tokenStart buf pos).2 := by
  obtain ⟨cs, rfl⟩ := h.valid
  by_cases hsign : byteAt (encode cs) pos = 0x2B ∨ byteAt (encode cs) pos = 0x2D
  · have hb : (byteAt (encode cs) pos).toNat < 0x80 := by
      rcases hsign with h | h <;> rw [h] <;> decide
    have he : (tokenStart (encode cs) pos).2 = pos + 1 := by
      rw [tokenStart, if_pos hsign]
      split_ifs <;> rfl
    rw [he]
    exact ⟨(ascii_byteAt hlt hb).2, by omega⟩
  · have he : (tokenStart (encode cs) pos).2 = pos := by
      rw [tokenStart, if_neg hsign]
      split_ifs <;> rfl
    rw [he]
    exact ⟨h, le_rfl⟩

/-- What every call guarantees: the buffer is untouched, the cursor stays in it
on a character boundary and never moves back, and a failed call leaves it. -/
structure Keeps (before : Scanner) (r : Bool × Scanner) : Prop where
  buffer : r.2.buffer = before.buffer
  boundary : Boundary r.2.buffer r.2.position
  forward : before.position ≤ r.2.position
  failed : r.1 = false → r.2.position = before.position

theorem keeps_same {s : Scanner} (h : Boundary s.buffer s.position) (b : Bool) : Keeps s (b, s) :=
  ⟨rfl, h, le_rfl, fun _ => rfl⟩

theorem keeps_move {s : Scanner} {pos : Nat} (hb : Boundary s.buffer pos) (hle : s.position ≤ pos) :
    Keeps s (true, { s with position := pos }) :=
  ⟨rfl, hb, hle, fun h => by simp at h⟩

theorem readStaticBaseType_keeps {s : Scanner} (h : Boundary s.buffer s.position) {stops : List UInt8}
    (hs : Ascii stops) : Keeps s (exec s (.readStaticBaseType stops)) := by
  obtain ⟨hb, hle⟩ := skipWhitespace_spec h
  simp only [exec, akScannerReadStaticBaseType]
  split_ifs with h1 h2 h3 h4
  · exact keeps_same h false
  · exact keeps_same h false
  · exact keeps_same h false
  · exact keeps_same h false
  · obtain ⟨hb', hle'⟩ := tokenStart_spec hb (by omega)
    obtain ⟨hb'', hle''⟩ := tokenLoop_spec hs hb' h3
    exact keeps_move hb'' (by omega)

theorem findClosing_spec {spec : GroupSpec} {start : Nat} {depth : BitVec 32} {closing : Nat}
    (h : findClosing spec buf start pos depth = some closing) :
    pos ≤ closing ∧ closing < buf.length ∧ byteAt buf closing = spec.mustEndWith := by
  fun_induction findClosing spec buf start pos depth <;> grind

theorem findGroup_keeps {s : Scanner} (h : Boundary s.buffer s.position) {spec : GroupSpec}
    (hs : spec.mustEndWith.toNat < 0x80) : Keeps s (exec s (.findGroup spec)) := by
  obtain ⟨cs, hcs⟩ := h.valid
  have hle : s.position ≤
      if spec.consumeLeadingWs then skipWhitespace s.buffer s.position else s.position := by
    split_ifs
    · exact (skipWhitespace_spec h).2
    · exact le_rfl
  simp only [exec, akScannerFindGroup]
  generalize (if spec.consumeLeadingWs then skipWhitespace s.buffer s.position else s.position) = pos at hle ⊢
  split_ifs with h1 h2 h3
  · exact keeps_same h false
  · exact keeps_same h false
  · exact keeps_same h false
  · cases hc : findClosing spec s.buffer pos (pos + 1) 1 with
    | none => exact keeps_same h false
    | some closing =>
        obtain ⟨hp, hlt, hb⟩ := findClosing_spec hc
        rw [← hcs] at hlt hb
        have hbd := (ascii_byteAt hlt (hb ▸ hs)).1
        exact keeps_move (hcs ▸ hbd) (by omega)

theorem settle_keeps {s : Scanner} (h : Boundary s.buffer s.position) {pos : Nat}
    (hb : pos < s.buffer.length → Boundary s.buffer pos) (hle : s.position ≤ pos) :
    Keeps s (settle s pos) := by
  rw [settle]
  split_ifs with hl
  · exact keeps_same h false
  · exact keeps_move (hb (by omega)) hle

theorem seekByte_spec (target : UInt8) (buf : List UInt8) (pos : Nat) :
    seekByte target buf pos < buf.length → byteAt buf (seekByte target buf pos) = target := by
  fun_induction seekByte target buf pos with
  | case1 pos h ih => exact ih
  | case2 pos h =>
      intro hlt
      by_contra hne
      exact h ⟨hlt, hne⟩

theorem afterComment_spec (h : Boundary buf pos) (hlt : pos < buf.length) (hc : byteAt buf pos = 0x3B) :
    buf.length ≤ afterComment buf pos ∨ Boundary buf (afterComment buf pos) := by
  obtain ⟨cs, rfl⟩ := h.valid
  simp only [afterComment]
  split_ifs with he
  · exact Or.inr (ascii_byteAt he.1 (by rw [he.2]; decide)).2
  · by_cases hl : seekByte 0x0A (encode cs) pos < (encode cs).length
    · exact absurd ⟨hl, seekByte_spec _ _ _ hl⟩ he
    · exact Or.inl (by omega)

theorem skipWhitespaceAndComments_spec (h : Boundary buf pos) :
    (skipWhitespaceAndComments buf pos < buf.length → Boundary buf (skipWhitespaceAndComments buf pos)) ∧
      pos ≤ skipWhitespaceAndComments buf pos := by
  fun_induction skipWhitespaceAndComments buf pos with
  | case1 pos hl hw hz => exact ⟨fun _ => h, le_rfl⟩
  | case2 pos hl hw hz ih =>
      obtain ⟨hb, hle⟩ := ih (charByteLenAt_boundary h hl).2
      exact ⟨hb, by omega⟩
  | case3 pos hl hw hc ih =>
      have hlt := lt_afterComment hl hc
      rcases afterComment_spec h hl hc with hend | hb
      · rw [skipWhitespaceAndComments, dif_neg (by omega)]
        exact ⟨fun h => absurd h (by omega), hlt.le⟩
      · obtain ⟨hb', hle⟩ := ih hb
        exact ⟨hb', by omega⟩
  | case4 pos hl hw hc => exact ⟨fun _ => h, le_rfl⟩
  | case5 pos hl => exact ⟨fun _ => h, le_rfl⟩

theorem gotoNextTarget_keeps {s : Scanner} (h : Boundary s.buffer s.position) {target : UInt8}
    (ht : target.toNat < 0x80) : Keeps s (exec s (.gotoNextTarget target)) := by
  obtain ⟨cs, hcs⟩ := h.valid
  simp only [exec, akScannerGotoNextTarget]
  split_ifs with h1 h2
  · exact keeps_same h false
  · exact keeps_same h true
  · refine settle_keeps h (fun hlt => ?_) (le_seekByte _ _ _)
    have hb := seekByte_spec target s.buffer s.position hlt
    rw [← hcs] at hlt hb ⊢
    exact (ascii_byteAt hlt (by rw [hb]; exact ht)).1

def Call.Ascii : Call → Prop
  | .readStaticBaseType stopSymbols => ScannerCursor.Ascii stopSymbols
  | .findGroup spec => spec.mustStartWith.toNat < 0x80 ∧ spec.mustEndWith.toNat < 0x80 ∧
      ∀ e ∈ spec.canEscapeWith, e.toNat < 0x80
  | .gotoNextNonWhite | .skipWhitespaceAndComments => True
  | .gotoNextTarget targetByte => targetByte.toNat < 0x80

theorem exec_keeps {s : Scanner} (h : Boundary s.buffer s.position) {call : Call} (ha : Call.Ascii call) :
    Keeps s (exec s call) := by
  cases call with
  | readStaticBaseType stops => exact readStaticBaseType_keeps h ha
  | findGroup spec => exact findGroup_keeps h ha.2.1
  | gotoNextNonWhite =>
      obtain ⟨hb, hle⟩ := skipWhitespace_spec h
      exact settle_keeps h (fun _ => hb) hle
  | skipWhitespaceAndComments =>
      obtain ⟨hb, hle⟩ := skipWhitespaceAndComments_spec h
      exact settle_keeps h hb hle
  | gotoNextTarget target => exact gotoNextTarget_keeps h ha

theorem run_boundary {s : Scanner} (h : Boundary s.buffer s.position) (calls : List Call)
    (ha : ∀ call ∈ calls, Call.Ascii call) :
    (run s calls).buffer = s.buffer ∧ Boundary (run s calls).buffer (run s calls).position := by
  induction calls generalizing s with
  | nil => exact ⟨rfl, h⟩
  | cons call calls ih =>
      have hk := exec_keeps h (ha call (by simp))
      obtain ⟨hbuf, hb⟩ := ih hk.boundary (fun c hc => ha c (by simp [hc]))
      exact ⟨hbuf.trans hk.buffer, hb⟩

/-- On a new scanner, after any calls with ASCII arguments, one more call keeps the
cursor inside the buffer, on a character boundary and not before where it was; and a failed
call does not move it. -/
theorem cursor_invariant (buffer : List UInt8) (position : Nat) (hp : Boundary buffer position)
    (calls : List Call) (hcalls : ∀ call ∈ calls, Call.Ascii call)
    (call : Call) (hcall : Call.Ascii call) :
    let before := run ⟨buffer, position⟩ calls
    let after := exec before call
    akScannerNew buffer position = some ⟨buffer, position⟩ ∧ after.2.buffer = buffer ∧ after.2.position ≤ buffer.length ∧ before.position ≤ after.2.position ∧
      Boundary buffer after.2.position ∧ (after.1 = false → after.2.position = before.position) := by
  intro before after
  obtain ⟨hbuf, hb⟩ := run_boundary (s := ⟨buffer, position⟩) hp calls hcalls
  have hk := exec_keeps hb hcall
  have hbuf' : after.2.buffer = buffer := hk.buffer.trans hbuf
  have hbd : Boundary buffer after.2.position := hbuf' ▸ hk.boundary
  exact ⟨if_neg (Nat.not_lt.mpr hp.le_length), hbuf', hbd.le_length, hk.forward, hbd, hk.failed⟩

theorem cursor_invariant_arabicDigit :
    Boundary [0xD9, 0xA1, 0x20]
      (exec (run ⟨[0xD9, 0xA1, 0x20], 0⟩ [.gotoNextNonWhite]) (.readStaticBaseType [0x29])).2.position :=
  (cursor_invariant [0xD9, 0xA1, 0x20] 0 ⟨[], [Char.ofNat 0x661, ' '], by decide, rfl⟩
    [.gotoNextNonWhite] (by simp [Call.Ascii]) (.readStaticBaseType [0x29])
    (by simp [Call.Ascii, Ascii])).2.2.2.2.1

end Ak24.ScannerCursor
