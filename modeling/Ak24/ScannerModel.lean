import Ak24.Utf8Model

namespace Ak24.ScannerModel

open Utf8Model

structure Scanner where
  buffer : List UInt8
  position : Nat
  deriving DecidableEq, Repr

def akScannerNew (buffer : List UInt8) (position : Nat) : Option Scanner :=
  if buffer.length < position then none else some ⟨buffer, position⟩

def byteAt (buf : List UInt8) (pos : Nat) : UInt8 := buf.getD pos 0

/-- Classify the character at a position by its code point, or by its first
byte when the bytes there do not decode. -/
def classifyAt (onCodepoint : Nat → Bool) (onByte : UInt8 → Bool) (buf : List UInt8) (pos : Nat) : Bool :=
  if buf.length ≤ pos then false
  else
    let result := akUtf8Decode (buf.drop pos)
    if !result.valid then onByte (byteAt buf pos) else onCodepoint result.codepoint

def isWhitespaceAt : List UInt8 → Nat → Bool :=
  classifyAt akUtf8IsWhitespace (fun c => c == 0x20 || c == 0x09 || c == 0x0A || c == 0x0D)

def isDigitAt : List UInt8 → Nat → Bool :=
  classifyAt akUtf8IsDigit (fun c => 0x30 ≤ c && c ≤ 0x39)

def charByteLenAt (buf : List UInt8) (pos : Nat) : Nat :=
  if buf.length ≤ pos then 0 else akUtf8CharLen (buf.drop pos)

def isStopSymbol (c : UInt8) (stopSymbols : List UInt8) : Bool := stopSymbols.contains c

def skipWhitespace (buf : List UInt8) (pos : Nat) : Nat :=
  if pos < buf.length ∧ isWhitespaceAt buf pos then
    if _h : charByteLenAt buf pos = 0 then pos else skipWhitespace buf (pos + charByteLenAt buf pos)
  else pos
termination_by buf.length - pos
decreasing_by omega

inductive StaticBase
  | none | integer | real | symbol
  deriving DecidableEq, Repr

/-- `data` is the offset of the token in the buffer, absent for a null pointer. -/
structure StaticType where
  base : StaticBase
  data : Option Nat
  byteLength : Nat
  deriving DecidableEq, Repr

structure StaticTypeResult where
  success : Bool
  startPosition : Nat
  errorPosition : Nat
  data : StaticType
  deriving DecidableEq, Repr

inductive ParseState
  | start | sign | integer | real | symbol | error
  deriving DecidableEq, Repr

/-- One turn of the `switch` in the token loop. Numbers advance by one byte,
symbols by one character. -/
def parseStep (buf : List UInt8) (pos : Nat) : ParseState → ParseState × Nat
  | .integer =>
    if isDigitAt buf pos then (.integer, pos + 1)
    else if byteAt buf pos = 0x2E then (.real, pos + 1)
    else (.error, pos)
  | .real => if isDigitAt buf pos then (.real, pos + 1) else (.error, pos)
  | .symbol =>
    if charByteLenAt buf pos = 0 then (.error, pos) else (.symbol, pos + charByteLenAt buf pos)
  | .start | .sign | .error => (.error, pos)

theorem parseStep_progress (buf : List UInt8) (pos : Nat) (state : ParseState) :
    (parseStep buf pos state).1 = .error ∧ (parseStep buf pos state).2 = pos ∨
      pos < (parseStep buf pos state).2 := by
  cases state with
  | start | sign | error => exact Or.inl ⟨rfl, rfl⟩
  | integer | real | symbol => simp only [parseStep]; split_ifs <;> simp <;> omega

def tokenLoop (stopSymbols buf : List UInt8) (pos : Nat) (state : ParseState) : ParseState × Nat :=
  if _h : pos < buf.length ∧ state ≠ .error then
    if isWhitespaceAt buf pos then (state, pos)
    else if isStopSymbol (byteAt buf pos) stopSymbols then (state, pos)
    else tokenLoop stopSymbols buf (parseStep buf pos state).2 (parseStep buf pos state).1
  else (state, pos)
termination_by 2 * (buf.length - pos) + if state = .error then 0 else 1
decreasing_by
  have hp := parseStep_progress buf pos state
  grind

def tokenStart (buf : List UInt8) (pos : Nat) : ParseState × Nat :=
  if byteAt buf pos = 0x2B ∨ byteAt buf pos = 0x2D then
    if buf.length ≤ pos + 1 then (.symbol, pos + 1)
    else if isDigitAt buf (pos + 1) then (.integer, pos + 1)
    else if isWhitespaceAt buf (pos + 1) then (.symbol, pos + 1)
    else (.symbol, pos + 1)
  else if isDigitAt buf pos then (.integer, pos)
  else (.symbol, pos)

def ParseState.base : ParseState → StaticBase
  | .integer => .integer
  | .real => .real
  | _ => .symbol

def readFailure (start error : Nat) : StaticTypeResult := ⟨false, start, error, ⟨.none, none, 0⟩⟩

def akScannerReadStaticBaseType (scanner : Scanner) (stopSymbols : List UInt8) :
    StaticTypeResult × Scanner :=
  let buf := scanner.buffer
  let pos := skipWhitespace buf scanner.position
  if buf.length ≤ pos then (readFailure scanner.position pos, scanner)
  else if isStopSymbol (byteAt buf pos) stopSymbols then (readFailure scanner.position pos, scanner)
  else
    let entry := tokenStart buf pos
    let final := tokenLoop stopSymbols buf entry.2 entry.1
    if final.1 = .error then (readFailure scanner.position final.2, scanner)
    else if final.2 = pos then (readFailure scanner.position final.2, scanner)
    else (⟨true, scanner.position, 0, ⟨final.1.base, some pos, final.2 - pos⟩⟩,
      { scanner with position := final.2 })

structure FindGroupResult where
  success : Bool
  indexOfStartSymbol : Nat
  indexOfClosingSymbol : Nat
  deriving DecidableEq, Repr

structure GroupSpec where
  mustStartWith : UInt8
  mustEndWith : UInt8
  canEscapeWith : Option UInt8
  consumeLeadingWs : Bool
  deriving DecidableEq, Repr

/-- `depth` is a C `int`, so it is kept as a 32-bit word. -/
def findClosing (spec : GroupSpec) (buf : List UInt8) (start pos : Nat) (depth : BitVec 32) : Option Nat :=
  if _h : pos < buf.length then
    let current := byteAt buf pos
    let escaped := start + 1 < pos ∧ spec.canEscapeWith = some (byteAt buf (pos - 1))
    if escaped then findClosing spec buf start (pos + 1) depth
    else if spec.mustStartWith = spec.mustEndWith then
      if current = spec.mustEndWith then some pos else findClosing spec buf start (pos + 1) depth
    else if current = spec.mustStartWith then findClosing spec buf start (pos + 1) (depth + 1)
    else if current = spec.mustEndWith then
      if depth - 1 = 0 then some pos else findClosing spec buf start (pos + 1) (depth - 1)
    else findClosing spec buf start (pos + 1) depth
  else none
termination_by buf.length - pos

def groupFailure : FindGroupResult := ⟨false, 0, 0⟩

def akScannerFindGroup (scanner : Scanner) (spec : GroupSpec) : FindGroupResult × Scanner :=
  let buf := scanner.buffer
  if buf.length ≤ scanner.position then (groupFailure, scanner)
  else
    let pos := if spec.consumeLeadingWs then skipWhitespace buf scanner.position else scanner.position
    if buf.length ≤ pos then (groupFailure, scanner)
    else if byteAt buf pos ≠ spec.mustStartWith then (groupFailure, scanner)
    else
      match findClosing spec buf pos (pos + 1) 1 with
      | some closing => (⟨true, pos, closing⟩, { scanner with position := closing })
      | none => (groupFailure, scanner)

/-- Finish a cursor-moving call: running off the end reports failure and
leaves the cursor alone. -/
def settle (scanner : Scanner) (pos : Nat) : Bool × Scanner :=
  if scanner.buffer.length ≤ pos then (false, scanner) else (true, { scanner with position := pos })

def akScannerGotoNextNonWhite (scanner : Scanner) : Bool × Scanner :=
  settle scanner (skipWhitespace scanner.buffer scanner.position)

def seekByte (target : UInt8) (buf : List UInt8) (pos : Nat) : Nat :=
  if pos < buf.length ∧ byteAt buf pos ≠ target then seekByte target buf (pos + 1) else pos
termination_by buf.length - pos

theorem le_seekByte (target : UInt8) (buf : List UInt8) (pos : Nat) : pos ≤ seekByte target buf pos := by
  fun_induction seekByte target buf pos with
  | case1 pos h ih => omega
  | case2 pos h => exact le_rfl

def afterComment (buf : List UInt8) (pos : Nat) : Nat :=
  let eol := seekByte 0x0A buf pos
  if eol < buf.length ∧ byteAt buf eol = 0x0A then eol + 1 else eol

theorem lt_afterComment {buf : List UInt8} {pos : Nat} (h : pos < buf.length)
    (hc : byteAt buf pos = 0x3B) : pos < afterComment buf pos := by
  have hs : pos + 1 ≤ seekByte 0x0A buf pos := by
    rw [seekByte, if_pos ⟨h, by rw [hc]; decide⟩]
    exact le_seekByte _ _ _
  simp only [afterComment]
  split_ifs <;> omega

def skipWhitespaceAndComments (buf : List UInt8) (pos : Nat) : Nat :=
  if _h : pos < buf.length then
    if isWhitespaceAt buf pos then
      if _hz : charByteLenAt buf pos = 0 then pos
      else skipWhitespaceAndComments buf (pos + charByteLenAt buf pos)
    else if _hc : byteAt buf pos = 0x3B then skipWhitespaceAndComments buf (afterComment buf pos)
    else pos
  else pos
termination_by buf.length - pos
decreasing_by
  · omega
  · have h := lt_afterComment _h _hc
    omega

def akScannerSkipWhitespaceAndComments (scanner : Scanner) : Bool × Scanner :=
  settle scanner (skipWhitespaceAndComments scanner.buffer scanner.position)

def akScannerGotoNextTarget (scanner : Scanner) (targetByte : UInt8) : Bool × Scanner :=
  if scanner.buffer.length ≤ scanner.position then (false, scanner)
  else if byteAt scanner.buffer scanner.position = targetByte then (true, scanner)
  else settle scanner (seekByte targetByte scanner.buffer scanner.position)

inductive Call
  | readStaticBaseType (stopSymbols : List UInt8)
  | findGroup (spec : GroupSpec)
  | gotoNextNonWhite
  | skipWhitespaceAndComments
  | gotoNextTarget (targetByte : UInt8)

def exec (scanner : Scanner) : Call → Bool × Scanner
  | .readStaticBaseType stopSymbols =>
    let r := akScannerReadStaticBaseType scanner stopSymbols
    (r.1.success, r.2)
  | .findGroup spec =>
    let r := akScannerFindGroup scanner spec
    (r.1.success, r.2)
  | .gotoNextNonWhite => akScannerGotoNextNonWhite scanner
  | .skipWhitespaceAndComments => akScannerSkipWhitespaceAndComments scanner
  | .gotoNextTarget targetByte => akScannerGotoNextTarget scanner targetByte

def run (scanner : Scanner) (calls : List Call) : Scanner :=
  calls.foldl (fun s call => (exec s call).2) scanner

end Ak24.ScannerModel
