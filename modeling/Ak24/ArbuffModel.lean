import Ak24.Words
import Ak24.BoundedQueue

namespace Ak24.ArbuffModel

open BoundedQueue

abbrev Size := BitVec 64

variable {α : Type}

/-- The two ways a call can go wrong: an access outside the allocated slots,
and a loop that is still running when the fuel is spent. -/
inductive Fault
  | outOfBounds
  | outOfFuel
  deriving DecidableEq, Repr

structure Slot (α : Type) where
  value : Option α
  sequence : Size
  deriving DecidableEq, Repr

structure Arbuff (α : Type) where
  slots : List (Slot α)
  capacity : Size
  mask : Size
  head : Size
  tail : Size
  deriving DecidableEq, Repr

def nextPowerOf2 (n : Size) : Size :=
  if n = 0 then 1
  else
    let n := n - 1
    let n := n ||| n >>> 1
    let n := n ||| n >>> 2
    let n := n ||| n >>> 4
    let n := n ||| n >>> 8
    let n := n ||| n >>> 16
    let n := n ||| n >>> 32
    n + 1

def slotBytes (capacity : Size) : Size := 16 * capacity

def initSlots (α : Type) (room : Nat) : Nat → Except Fault (List (Slot α))
  | 0 => .ok []
  | n + 1 => do
    let slots ← initSlots α room n
    if n < room then .ok (slots ++ [⟨none, BitVec.ofNat 64 n⟩]) else .error .outOfBounds

/-- `alloc` answers whether an allocation of a given size succeeds; a block
granted for the slots has exactly the requested size. -/
def akArbuffNew (α : Type) (alloc : Size → Bool) (capacity : Size) : Except Fault (Option (Arbuff α)) :=
  if capacity = 0 then .ok none
  else
    let capacity := nextPowerOf2 capacity
    if !alloc 40 then .ok none
    else if !alloc (slotBytes capacity) then .ok none
    else do
      let slots ← initSlots α ((slotBytes capacity).toNat / 16) capacity.toNat
      .ok (some ⟨slots, capacity, capacity - 1, 0, 0⟩)

def Arbuff.slotAt (b : Arbuff α) (ticket : Size) : Except Fault (Slot α) :=
  match b.slots[(ticket &&& b.mask).toNat]? with
  | some slot => .ok slot
  | none => .error .outOfBounds

def Arbuff.setSlot (b : Arbuff α) (ticket : Size) (slot : Slot α) : Arbuff α :=
  { b with slots := b.slots.set (ticket &&& b.mask).toNat slot }

def diff (sequence index : Size) : Int := (sequence - index).toInt

/-- The loop that both push and pop run before they own a ticket: `index` is
the counter they load and `expected` the sequence that lets them take it.
`spurious` counts the failures the weak compare-exchange still has in store. -/
def acquire (b : Arbuff α) (index expected : Size) : Nat → Nat → Except Fault (Option Size)
  | 0, _ => .error .outOfFuel
  | fuel + 1, spurious => do
    let slot ← b.slotAt index
    if diff slot.sequence expected = 0 then
      match spurious with
      | 0 => .ok (some index)
      | spurious + 1 => acquire b index expected fuel spurious
    else if diff slot.sequence expected < 0 then .ok none
    else acquire b index expected fuel spurious

def akArbuffPush (fuel spurious : Nat) (b : Arbuff α) (item : α) : Except Fault (Int × Arbuff α) := do
  match ← acquire b b.head b.head fuel spurious with
  | none => .ok (-1, b)
  | some head =>
    let b := { b with head := head + 1 }
    let _ ← b.slotAt head
    .ok (0, b.setSlot head ⟨some item, head + 1⟩)

def akArbuffPop (fuel spurious : Nat) (b : Arbuff α) : Except Fault (Option α × Arbuff α) := do
  match ← acquire b b.tail (b.tail + 1) fuel spurious with
  | none => .ok (none, b)
  | some tail =>
    let b := { b with tail := tail + 1 }
    let slot ← b.slotAt tail
    .ok (slot.value, b.setSlot tail { slot with sequence := tail + b.mask + 1 })

def akArbuffPeek (b : Arbuff α) : Except Fault (Option α) := do
  let slot ← b.slotAt b.tail
  if diff slot.sequence (b.tail + 1) = 0 then .ok slot.value else .ok none

def akArbuffCount (b : Arbuff α) : Size := if b.tail ≤ b.head then b.head - b.tail else 0

def akArbuffIsEmpty (b : Arbuff α) : Int := if b.head = b.tail then 1 else 0

def akArbuffIsFull (b : Arbuff α) : Int := if b.capacity ≤ b.head - b.tail then 1 else 0

def clearSlots (head : Size) : Nat → Nat → List (Slot α) → Except Fault (List (Slot α))
  | 0, _, slots => .ok slots
  | left + 1, i, slots =>
    if i < slots.length then clearSlots head left (i + 1) (slots.set i ⟨none, head + BitVec.ofNat 64 i⟩)
    else .error .outOfBounds

def akArbuffClear (b : Arbuff α) : Except Fault (Arbuff α) := do
  let slots ← clearSlots b.head b.capacity.toNat 0 b.slots
  .ok { b with slots, tail := b.head }

def exec (fuel : Nat) (b : Arbuff α) : Call α × Nat → Except Fault (Ret α × Arbuff α)
  | (.push item, spurious) => do
    let r ← akArbuffPush fuel spurious b item
    .ok (.status r.1, r.2)
  | (.pop, spurious) => do
    let r ← akArbuffPop fuel spurious b
    .ok (.item r.1, r.2)
  | (.peek, _) => do
    let r ← akArbuffPeek b
    .ok (.item r, b)
  | (.count, _) => .ok (.size (akArbuffCount b).toNat, b)

def run (fuel : Nat) (b : Arbuff α) : List (Call α × Nat) → Except Fault (List (Ret α) × Arbuff α)
  | [] => .ok ([], b)
  | call :: calls => do
    let r ← exec fuel b call
    let rest ← run fuel r.2 calls
    .ok (r.1 :: rest.1, rest.2)

end Ak24.ArbuffModel
