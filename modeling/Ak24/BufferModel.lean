import Ak24.Blocks
import Ak24.Objects

namespace Ak24.BufferModel

open Objects

structure Buffer where
  data : List (Option UInt8)
  capacity : Nat
  count : Nat
  originOffset : Nat
  deriving DecidableEq, Repr

def minBufferSize : Nat := 16

structure Grants where
  buffer : Bool
  data : Bool
  deriving DecidableEq, Repr

def akBufferNew (initialSize : Nat) (grants : Grants) : Option Buffer :=
  if !grants.buffer then none
  else
    let initialSize := if initialSize < minBufferSize then minBufferSize else initialSize
    if !grants.data then none else some ⟨Blocks.alloc initialSize, initialSize, 0, 0⟩

/-- The loop of `ak_buffer_copy_to`; `none` when it is not over after `fuel` rounds. -/
def doublingLoop : Nat → Nat → Nat → Option Nat
  | 0, newCapacity, required => if newCapacity < required then none else some newCapacity
  | fuel + 1, newCapacity, required =>
    if newCapacity < required then doublingLoop fuel (newCapacity * 2 % 2 ^ 64) required else some newCapacity

def doublings : Nat := 64

def makeRoom (b : Buffer) (required : Nat) (granted : Bool) : Option (Option Buffer) :=
  if required > b.capacity then
    match doublingLoop doublings b.capacity required with
    | none => none
    | some newCapacity =>
      if !granted then some none
      else some (some { b with data := Blocks.realloc b.data newCapacity, capacity := newCapacity })
  else some (some b)

/-- In this and the following functions `none` is an access outside of a block, a
test of a byte that has not been written, or a loop that does not end. -/
def akBufferCopyTo (b : Buffer) (src : Option (List UInt8)) (granted : Bool) : Option (Int × Buffer) :=
  match src with
  | none => some (-1, b)
  | some src =>
    if src.length = 0 then some (0, b)
    else
      match makeRoom b ((b.count + src.length) % 2 ^ 64) granted with
      | none => none
      | some none => some (-1, b)
      | some (some b) =>
        match Blocks.write b.data b.count (src.map some) with
        | none => none
        | some data => some (0, { b with data, count := (b.count + src.length) % 2 ^ 64 })

def akBufferClear (b : Buffer) : Buffer := { b with count := 0 }

def akBufferShrinkToFit (b : Buffer) (granted : Bool) : Int × Buffer :=
  if b.count = 0 then (0, b)
  else if b.count ≥ b.capacity then (0, b)
  else if !granted then (-1, b)
  else (0, { b with data := Blocks.realloc b.data b.count, capacity := b.count })

def akBufferSubBuffer (b : Buffer) (offset length : Nat) (grants : Grants) : Option (Option Buffer × Int) :=
  if offset ≥ b.count then some (none, 0)
  else
    let available := b.count - offset
    let actualLength := if length > available then available else length
    if actualLength = 0 then
      match akBufferNew minBufferSize grants with
      | none => some (none, 0)
      | some sub => some (some { sub with originOffset := (b.originOffset + offset) % 2 ^ 64 }, 0)
    else
      match akBufferNew actualLength grants with
      | none => some (none, 0)
      | some sub =>
        match Blocks.read b.data offset actualLength with
        | none => none
        | some bytes =>
          match Blocks.write sub.data 0 bytes with
          | none => none
          | some data =>
            some (some { sub with data, count := actualLength, originOffset := (b.originOffset + offset) % 2 ^ 64 },
              (BitVec.ofNat 32 actualLength).toInt)

def shiftLeft (b : Buffer) (n : Nat) : Option (List (Option UInt8)) :=
  match Blocks.read b.data 0 n, Blocks.read b.data n (b.count - n) with
  | some temp, some moved =>
    match Blocks.write b.data 0 moved with
    | none => none
    | some data => Blocks.write data (b.count - n) temp
  | _, _ => none

def shiftRight (b : Buffer) (n : Nat) : Option (List (Option UInt8)) :=
  match Blocks.read b.data (b.count - n) n, Blocks.read b.data 0 (b.count - n) with
  | some temp, some moved =>
    match Blocks.write b.data n moved with
    | none => none
    | some data => Blocks.write data 0 temp
  | _, _ => none

def rotate (b : Buffer) (n : Nat) (granted : Bool) (shift : Nat → Option (List (Option UInt8))) : Option Buffer :=
  if b.count = 0 ∨ n = 0 then some b
  else if n % b.count = 0 then some b
  else if !granted then some b
  else (shift (n % b.count)).map fun data => { b with data }

def akBufferRotateLeft (b : Buffer) (n : Nat) (granted : Bool) : Option Buffer := rotate b n granted (shiftLeft b)

def akBufferRotateRight (b : Buffer) (n : Nat) (granted : Bool) : Option Buffer := rotate b n granted (shiftRight b)

def trimLoop (data : List (Option UInt8)) (byte : UInt8) (index : Nat → Nat) : Nat → Nat → Option Nat
  | 0, trimCount => some trimCount
  | left + 1, trimCount =>
    match data[index trimCount]? with
    | some (some x) => if x = byte then trimLoop data byte index left (trimCount + 1) else some trimCount
    | _ => none

def akBufferTrimLeft (b : Buffer) (byte : UInt8) (granted : Bool) : Option (Int × Buffer) :=
  if b.count = 0 then some (0, b)
  else
    match trimLoop b.data byte id b.count 0 with
    | none => none
    | some trimCount =>
      if trimCount = 0 then some (0, b)
      else if trimCount = b.count then some (akBufferShrinkToFit { b with count := 0 } granted)
      else
        match Blocks.read b.data trimCount (b.count - trimCount) with
        | none => none
        | some moved =>
          match Blocks.write b.data 0 moved with
          | none => none
          | some data => some (akBufferShrinkToFit { b with data, count := b.count - trimCount } granted)

def akBufferTrimRight (b : Buffer) (byte : UInt8) (granted : Bool) : Option (Int × Buffer) :=
  if b.count = 0 then some (0, b)
  else
    match trimLoop b.data byte (fun trimCount => b.count - 1 - trimCount) b.count 0 with
    | none => none
    | some trimCount =>
      if trimCount = 0 then some (0, b)
      else some (akBufferShrinkToFit { b with count := b.count - trimCount } granted)

def akBufferCopy (b : Buffer) (grants : Grants) : Option (Option Buffer) :=
  match akBufferNew b.capacity grants with
  | none => some none
  | some copy =>
    if b.count > 0 then
      match Blocks.read b.data 0 b.count with
      | none => none
      | some bytes =>
        match Blocks.write copy.data 0 bytes with
        | none => none
        | some data => some (some { copy with data, count := b.count, originOffset := b.originOffset })
    else some (some { copy with originOffset := b.originOffset })

structure SplitBuffer where
  left : Option Buffer
  right : Option Buffer
  deriving DecidableEq, Repr

def splitCapacity (contentSize hint : Nat) : Nat :=
  let capacity := if contentSize < hint then contentSize else hint
  if capacity < minBufferSize ∧ contentSize > 0 then minBufferSize
  else if capacity = 0 ∧ contentSize = 0 then minBufferSize
  else capacity

def copyPart (b part : Buffer) (offset contentSize : Nat) : Option Buffer :=
  if contentSize > 0 then
    match Blocks.read b.data offset contentSize with
    | none => none
    | some bytes =>
      match Blocks.write part.data 0 bytes with
      | none => none
      | some data => some { part with data, count := contentSize }
  else some part

def akBufferSplit (b : Buffer) (index l r : Nat) (leftGrants rightGrants : Grants) : Option SplitBuffer :=
  if index > b.count then some ⟨none, none⟩
  else
    let leftContentSize := index
    let rightContentSize := b.count - index
    match akBufferNew (splitCapacity leftContentSize l) leftGrants with
    | none => some ⟨none, none⟩
    | some left =>
      match akBufferNew (splitCapacity rightContentSize r) rightGrants with
      | none => some ⟨none, none⟩
      | some right =>
        match copyPart b left 0 leftContentSize with
        | none => none
        | some left =>
          match copyPart b right index rightContentSize with
          | none => none
          | some right => some ⟨some left, some right⟩

inductive Call
  | copyTo (src : Option (List UInt8))
  | clear
  | shrinkToFit
  | rotateLeft (n : Nat)
  | rotateRight (n : Nat)
  | trimLeft (byte : UInt8)
  | trimRight (byte : UInt8)
  | subBuffer (offset length : Nat)
  | copy
  deriving DecidableEq, Repr

inductive Op
  | new (initialSize : Nat)
  | on (buffer : Option Nat) (call : Call)
  deriving DecidableEq, Repr

inductive Answer
  | done
  | status (code : Int)
  | buffer (made : Option Nat)
  | sub (made : Option Nat) (bytesCopied : Int)
  deriving DecidableEq, Repr

def nullAnswer : Call → Answer
  | .copyTo _ | .shrinkToFit | .trimLeft _ | .trimRight _ => .status (-1)
  | .clear | .rotateLeft _ | .rotateRight _ => .done
  | .subBuffer _ _ => .sub none 0
  | .copy => .buffer none

def keep (heap : Heap Buffer) : Option Buffer → Option Nat × Heap Buffer
  | none => (none, heap)
  | some b => (some heap.next, heap.alloc b)

def execCall (heap : Heap Buffer) (i : Nat) (b : Buffer) (grants : Grants) : Call → Option (Answer × Heap Buffer)
  | .copyTo src => (akBufferCopyTo b src grants.data).map fun r => (.status r.1, heap.store i r.2)
  | .clear => some (.done, heap.store i (akBufferClear b))
  | .shrinkToFit =>
    let r := akBufferShrinkToFit b grants.data
    some (.status r.1, heap.store i r.2)
  | .rotateLeft n => (akBufferRotateLeft b n grants.data).map fun b => (.done, heap.store i b)
  | .rotateRight n => (akBufferRotateRight b n grants.data).map fun b => (.done, heap.store i b)
  | .trimLeft byte => (akBufferTrimLeft b byte grants.data).map fun r => (.status r.1, heap.store i r.2)
  | .trimRight byte => (akBufferTrimRight b byte grants.data).map fun r => (.status r.1, heap.store i r.2)
  | .subBuffer offset length =>
    (akBufferSubBuffer b offset length grants).map fun r => (.sub (keep heap r.1).1 r.2, (keep heap r.1).2)
  | .copy => (akBufferCopy b grants).map fun r => (.buffer (keep heap r).1, (keep heap r).2)

def exec (heap : Heap Buffer) (grants : Grants) : Op → Option (Answer × Heap Buffer)
  | .new initialSize =>
    let r := keep heap (akBufferNew initialSize grants)
    some (.buffer r.1, r.2)
  | .on none call => some (nullAnswer call, heap)
  | .on (some i) call =>
    match heap.cells i with
    | none => none
    | some b => execCall heap i b grants call

structure Event where
  op : Op
  grants : Grants
  answer : Answer
  deriving DecidableEq, Repr

def Valid (heap : Heap Buffer) : Op → Prop
  | .on (some i) _ => heap.cells i ≠ none
  | _ => True

inductive Step (heap : Heap Buffer) : List Event → Heap Buffer → Prop
  | exec (op : Op) (grants : Grants) (answer : Answer) (heap' : Heap Buffer) (hvalid : Valid heap op)
    (h : exec heap grants op = some (answer, heap')) : Step heap [⟨op, grants, answer⟩] heap'

end Ak24.BufferModel
