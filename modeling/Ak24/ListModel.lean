import Ak24.Blocks
import Ak24.Objects
import Ak24.Words

namespace Ak24.ListModel

open Objects Blocks

variable {β : Type}

/-- A `list_base_t` with the array that its `items` points to. The null pointer is
the array of no cells, and an item that is stored in a cell is not null. -/
structure ListBase where
  items : List (Option Nat)
  capacity : Nat
  count : Nat
  deriving DecidableEq, Repr

structure State (β : Type) where
  list : ListBase
  heap : Heap β

structure Grants where
  growth : Bool
  item : Bool
  temp : Bool
  deriving DecidableEq, Repr

def listInit : ListBase := ⟨[], 0, 0⟩

def listInitialCapacity : Nat := 8

def doublings : Nat := 32

/-- In this and the following functions `none` is an access outside of an array or
to an item that is not there, a use of a cell that has not been written, or a loop
that does not end. -/
def listEnsureCapacity (l : ListBase) (required : Nat) (granted : Bool) : Option (Int × ListBase) :=
  if l.capacity ≥ required then some (0, l)
  else
    match Words.doubling 32 doublings (if l.capacity = 0 then listInitialCapacity else l.capacity) required with
    | none => none
    | some newCapacity =>
      if !granted then some (-1, l)
      else some (0, { l with items := Blocks.realloc l.items newCapacity, capacity := newCapacity })

def freeItem (heap : Heap β) (p : Nat) : Option (Heap β) := (heap.cells p).map fun _ => heap.free p

def freeItems (items : List (Option Nat)) : Nat → Nat → Heap β → Option (Heap β)
  | 0, _, heap => some heap
  | left + 1, i, heap => do
    let p ← fetch items i
    let heap ← freeItem heap p
    freeItems items left (i + 1) heap

def listDeinit (s : State β) : Option (State β) :=
  if s.list.items ≠ [] then
    (freeItems s.list.items s.list.count 0 s.heap).map fun heap => ⟨⟨[], 0, 0⟩, heap⟩
  else some { s with list := ⟨[], 0, 0⟩ }

def listPush (s : State β) (value : β) (grants : Grants) : Option (Int × State β) :=
  match listEnsureCapacity s.list ((s.list.count + 1) % 2 ^ 32) grants.growth with
  | none => none
  | some (code, l) =>
    if code ≠ 0 then some (-1, { s with list := l })
    else if !grants.item then some (-1, { s with list := l })
    else
      match put l.items l.count s.heap.next with
      | none => none
      | some items => some (0, ⟨{ l with items, count := (l.count + 1) % 2 ^ 32 }, s.heap.alloc value⟩)

def listPop (s : State β) : Option (Option Nat × State β) :=
  if s.list.count = 0 then some (none, s)
  else (fetch s.list.items (s.list.count - 1)).map fun p =>
    (some p, { s with list := { s.list with count := s.list.count - 1 } })

def listGet (s : State β) (index : Nat) : Option (Option Nat) :=
  if index ≥ s.list.count then some none else (fetch s.list.items index).map some

def listSet (s : State β) (index : Nat) (value : β) : Option (Int × State β) :=
  if index ≥ s.list.count then some (-1, s)
  else do
    let p ← fetch s.list.items index
    match s.heap.cells p with
    | none => none
    | some _ => some (0, { s with heap := s.heap.store p value })

def shiftUp (w stop : Nat) : Nat → List (Option Nat) → Option (List (Option Nat))
  | 0, items => some items
  | i + 1, items =>
    if i + 1 ≥ stop then do
      let p ← fetch items (i + 1 - w)
      let items ← put items (i + 1) p
      shiftUp w stop i items
    else some items

def shiftDown (w : Nat) : Nat → Nat → List (Option Nat) → Option (List (Option Nat))
  | 0, _, items => some items
  | left + 1, i, items => do
    let p ← fetch items (i + w)
    let items ← put items i p
    shiftDown w left (i + 1) items

def copyItems (source : List (Option Nat)) (start goal : Nat) :
    Nat → Nat → List (Option Nat) → Option (List (Option Nat))
  | 0, _, target => some target
  | left + 1, i, target => do
    let p ← fetch source (start + i)
    let target ← put target (goal + i) p
    copyItems source start goal left (i + 1) target

def listInsert (s : State β) (index : Nat) (value : β) (grants : Grants) : Option (Int × State β) :=
  if index > s.list.count then some (-1, s)
  else
    match listEnsureCapacity s.list ((s.list.count + 1) % 2 ^ 32) grants.growth with
    | none => none
    | some (code, l) =>
      if code ≠ 0 then some (-1, { s with list := l })
      else if !grants.item then some (-1, { s with list := l })
      else do
        let items ← shiftUp 1 (index + 1) l.count l.items
        let items ← put items index s.heap.next
        some (0, ⟨{ l with items, count := (l.count + 1) % 2 ^ 32 }, s.heap.alloc value⟩)

def listRemove (s : State β) (index : Nat) : Option (Int × State β) :=
  if index ≥ s.list.count then some (-1, s)
  else do
    let p ← fetch s.list.items index
    let heap ← freeItem s.heap p
    let items ← shiftDown 1 (s.list.count - 1 - index) index s.list.items
    some (0, ⟨{ s.list with items, count := s.list.count - 1 }, heap⟩)

def listClear (s : State β) : Option (State β) :=
  (freeItems s.list.items s.list.count 0 s.heap).map fun heap => ⟨{ s.list with count := 0 }, heap⟩

structure ListIter where
  index : Nat
  valid : Bool
  deriving DecidableEq, Repr

def listIter : ListIter := ⟨0, true⟩

def listNext (l : ListBase) (iter : ListIter) : Option (Option Nat × ListIter) :=
  if !iter.valid ∨ iter.index ≥ l.count then some (none, { iter with valid := false })
  else (fetch l.items iter.index).map fun p => (some p, { iter with index := (iter.index + 1) % 2 ^ 32 })

def rotateLeftLoops (l : ListBase) (n : Nat) : Option (List (Option Nat)) := do
  let temp ← copyItems l.items 0 0 n 0 (Blocks.alloc n)
  let items ← shiftDown n (l.count - n) 0 l.items
  copyItems temp 0 (l.count - n) n 0 items

def rotateRightLoops (l : ListBase) (n : Nat) : Option (List (Option Nat)) := do
  let temp ← copyItems l.items (l.count - n) 0 n 0 (Blocks.alloc n)
  let items ← shiftUp n n (l.count - 1) l.items
  copyItems temp 0 0 n 0 items

def rotate (loops : ListBase → Nat → Option (List (Option Nat))) (s : State β) (n : Nat) (granted : Bool) :
    Option (Int × State β) :=
  if s.list.count = 0 ∨ n = 0 then some (0, s)
  else if n % s.list.count = 0 then some (0, s)
  else if !granted then some (-1, s)
  else (loops s.list (n % s.list.count)).map fun items => (0, { s with list := { s.list with items } })

def listRotateLeft (s : State β) (n : Nat) (granted : Bool) : Option (Int × State β) :=
  rotate rotateLeftLoops s n granted

def listRotateRight (s : State β) (n : Nat) (granted : Bool) : Option (Int × State β) :=
  rotate rotateRightLoops s n granted

inductive Op (β : Type)
  | push (value : β)
  | pop
  | get (index : Nat)
  | set (index : Nat) (value : β)
  | insert (index : Nat) (value : β)
  | remove (index : Nat)
  | clear
  | rotateLeft (n : Nat)
  | rotateRight (n : Nat)
  deriving DecidableEq, Repr

inductive Answer (β : Type)
  | done
  | status (code : Int)
  | item (value : Option β)
  deriving DecidableEq, Repr

def deref (heap : Heap β) : Option Nat → Option (Option β)
  | none => some none
  | some p => (heap.cells p).map some

def exec (s : State β) (grants : Grants) : Op β → Option (Answer β × State β)
  | .push value => (listPush s value grants).map fun r => (.status r.1, r.2)
  | .pop => do
    let (p, s) ← listPop s
    let value ← deref s.heap p
    some (.item value, s)
  | .get index => do
    let p ← listGet s index
    let value ← deref s.heap p
    some (.item value, s)
  | .set index value => (listSet s index value).map fun r => (.status r.1, r.2)
  | .insert index value => (listInsert s index value grants).map fun r => (.status r.1, r.2)
  | .remove index => (listRemove s index).map fun r => (.status r.1, r.2)
  | .clear => (listClear s).map fun s => (.done, s)
  | .rotateLeft n => (listRotateLeft s n grants.temp).map fun r => (.status r.1, r.2)
  | .rotateRight n => (listRotateRight s n grants.temp).map fun r => (.status r.1, r.2)

structure Event (β : Type) where
  op : Op β
  grants : Grants
  answer : Answer β
  deriving DecidableEq, Repr

inductive Step (s : State β) : List (Event β) → State β → Prop
  | exec (op : Op β) (grants : Grants) (answer : Answer β) (s' : State β) (h : exec s grants op = some (answer, s')) :
    Step s [⟨op, grants, answer⟩] s'

def drive (s : State β) : Nat → ListIter → Option (List (Option β))
  | 0, _ => some []
  | n + 1, iter => do
    let (p, iter) ← listNext s.list iter
    let value ← deref s.heap p
    let values ← drive s n iter
    some (value :: values)

end Ak24.ListModel
