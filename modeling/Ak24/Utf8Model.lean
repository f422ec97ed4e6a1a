import Mathlib

namespace Ak24.Utf8Model

structure DecodeResult where
  codepoint : Nat
  bytes : Nat
  valid : Bool
  deriving DecidableEq, Repr

def isContinuationByte (byte : UInt8) : Bool := byte &&& 0xC0 == 0x80

/-- The guarded read `max_bytes > i && (data[i] & 0xC0) == 0x80`. The bytes a
call may look at are the list itself, so its length is `max_bytes`. -/
def continuationAt (data : List UInt8) (i : Nat) : Bool :=
  match data[i]? with
  | some byte => isContinuationByte byte
  | none => false

def akUtf8CharLen : List UInt8 → Nat
  | [] => 0
  | first :: rest =>
    let data := first :: rest
    if first &&& 0x80 = 0 then 1
    else if first &&& 0xE0 = 0xC0 then
      if continuationAt data 1 then 2 else 1
    else if first &&& 0xF0 = 0xE0 then
      if continuationAt data 1 && continuationAt data 2 then 3 else 1
    else if first &&& 0xF8 = 0xF0 then
      if continuationAt data 1 && continuationAt data 2 && continuationAt data 3 then 4 else 1
    else 1

def payload (data : List UInt8) (i mask shift : Nat) : Nat :=
  ((data.getD i 0).toNat &&& mask) <<< shift

def akUtf8Decode : List UInt8 → DecodeResult
  | [] => ⟨0, 0, false⟩
  | first :: rest =>
    let data := first :: rest
    let invalid : DecodeResult := ⟨first.toNat, 1, false⟩
    if first &&& 0x80 = 0 then ⟨first.toNat, 1, true⟩
    else if first &&& 0xE0 = 0xC0 then
      if continuationAt data 1 then
        let codepoint := payload data 0 0x1F 6 ||| payload data 1 0x3F 0
        ⟨codepoint, 2, 0x80 ≤ codepoint⟩
      else invalid
    else if first &&& 0xF0 = 0xE0 then
      if continuationAt data 1 && continuationAt data 2 then
        let codepoint := payload data 0 0x0F 12 ||| payload data 1 0x3F 6 ||| payload data 2 0x3F 0
        ⟨codepoint, 3, 0x800 ≤ codepoint ∧ (codepoint < 0xD800 ∨ 0xDFFF < codepoint)⟩
      else invalid
    else if first &&& 0xF8 = 0xF0 then
      if continuationAt data 1 && continuationAt data 2 && continuationAt data 3 then
        let codepoint := payload data 0 0x07 18 ||| payload data 1 0x3F 12 |||
          payload data 2 0x3F 6 ||| payload data 3 0x3F 0
        ⟨codepoint, 4, 0x10000 ≤ codepoint ∧ codepoint ≤ 0x10FFFF⟩
      else invalid
    else invalid

/-- The counting loop of `ak_utf8_char_count`, on the bytes not yet passed. -/
def akUtf8CharCount (data : List UInt8) : Nat :=
  if 0 < data.length then
    let charLen := akUtf8CharLen data
    if h : charLen = 0 then 0 else 1 + akUtf8CharCount (data.drop charLen)
  else 0
termination_by data.length
decreasing_by simp only [List.length_drop]; omega

def akUtf8Validate (data : List UInt8) : Bool :=
  if 0 < data.length then
    let result := akUtf8Decode data
    if _h : !result.valid ∨ result.bytes = 0 then false else akUtf8Validate (data.drop result.bytes)
  else true
termination_by data.length
decreasing_by simp only [List.length_drop]; grind

def akUtf8IsWhitespace (codepoint : Nat) : Bool :=
  codepoint == 0x20 || codepoint == 0x09 || codepoint == 0x0A || codepoint == 0x0D ||
  codepoint == 0x00A0 || codepoint == 0x1680 || (0x2000 ≤ codepoint && codepoint ≤ 0x200A) ||
  codepoint == 0x202F || codepoint == 0x205F || codepoint == 0x3000

def digitRanges : List (Nat × Nat) :=
  [(0x0030, 0x0039), (0x0660, 0x0669), (0x06F0, 0x06F9), (0x0966, 0x096F), (0x09E6, 0x09EF),
    (0x0A66, 0x0A6F), (0x0AE6, 0x0AEF), (0x0B66, 0x0B6F), (0x0BE6, 0x0BEF), (0x0C66, 0x0C6F),
    (0x0CE6, 0x0CEF), (0x0D66, 0x0D6F), (0x0E50, 0x0E59), (0x0ED0, 0x0ED9), (0x0F20, 0x0F29),
    (0x1040, 0x1049), (0x17E0, 0x17E9), (0x1810, 0x1819), (0xFF10, 0xFF19)]

def akUtf8IsDigit (codepoint : Nat) : Bool :=
  digitRanges.any (fun r => r.1 ≤ codepoint && codepoint ≤ r.2)

/-- Both functions classify the first byte alike and look at the same
continuation bytes, so the length never depends on the value checks. -/
theorem akUtf8Decode_bytes (data : List UInt8) : (akUtf8Decode data).bytes = akUtf8CharLen data := by
  cases data with
  | nil => rfl
  | cons first rest => simp only [akUtf8Decode, akUtf8CharLen]; split_ifs <;> rfl

theorem akUtf8CharLen_pos {data : List UInt8} (h : 0 < data.length) : 0 < akUtf8CharLen data := by
  cases data with
  | nil => exact absurd h (Nat.lt_irrefl 0)
  | cons first rest => simp only [akUtf8CharLen]; split_ifs <;> exact Nat.succ_pos _

def combiningRanges : List (Nat × Nat) :=
  [(0x0300, 0x036F), (0x1AB0, 0x1AFF), (0x1DC0, 0x1DFF), (0x20D0, 0x20FF), (0xFE20, 0xFE2F),
    (0x0591, 0x05BD), (0x05BF, 0x05BF), (0x05C1, 0x05C2), (0x05C4, 0x05C5), (0x05C7, 0x05C7),
    (0x0610, 0x061A), (0x064B, 0x065F), (0x0670, 0x0670), (0x06D6, 0x06DC), (0x06DF, 0x06E4),
    (0x06E7, 0x06E8), (0x06EA, 0x06ED), (0x0900, 0x0903), (0x093A, 0x093C), (0x093E, 0x094F),
    (0x0951, 0x0957), (0x0962, 0x0963)]

def akUtf8IsCombiningMark (codepoint : Nat) : Bool :=
  combiningRanges.any (fun r => r.1 ≤ codepoint && codepoint ≤ r.2)

def skipContinuation (data : List UInt8) : Nat → Nat → Nat
  | 0, pos => pos
  | left + 1, pos =>
    if 0 < pos ∧ isContinuationByte (data.getD pos 0) = true then skipContinuation data left (pos - 1)
    else pos

def akUtf8PrevChar (data : List UInt8) (currentPos : Nat) : Nat :=
  if currentPos = 0 then 0 else skipContinuation data 3 (currentPos - 1)

def combiningLen (data : List UInt8) : Nat :=
  if _h : 0 < data.length then
    let next := akUtf8Decode data
    if !next.valid then 0
    else if !akUtf8IsCombiningMark next.codepoint then 0
    else next.bytes + combiningLen (data.drop next.bytes)
  else 0
termination_by data.length
decreasing_by
  have := akUtf8CharLen_pos _h
  simp only [List.length_drop, akUtf8Decode_bytes]
  omega

def akUtf8GraphemeLen (data : List UInt8) : Nat :=
  if data.length = 0 then 0
  else
    let totalLen := akUtf8CharLen data
    if totalLen = 0 ∨ data.length < totalLen then totalLen
    else if !(akUtf8Decode data).valid then totalLen
    else totalLen + combiningLen (data.drop totalLen)

def akUtf8GraphemeCount (data : List UInt8) : Nat :=
  if 0 < data.length then
    let graphemeLen := akUtf8GraphemeLen data
    if h : graphemeLen = 0 then 0 else 1 + akUtf8GraphemeCount (data.drop graphemeLen)
  else 0
termination_by data.length
decreasing_by simp only [List.length_drop]; omega

end Ak24.Utf8Model
