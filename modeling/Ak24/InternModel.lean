import Ak24.Objects
import Ak24.Buckets

namespace Ak24.InternModel

open Objects

structure Entry where
  str : Nat
  len : Nat
  hash : BitVec 64
  deriving DecidableEq, Repr

structure Table where
  buckets : List (List Entry)
  bucketCount : BitVec 64
  stringCount : Nat
  totalBytes : Nat
  initialized : Bool
  deriving DecidableEq, Repr

structure Store where
  table : Table
  strings : Heap (List UInt8)

def hashString (str : List UInt8) : BitVec 64 :=
  str.foldl (fun hash c => (hash ^^^ c.toBitVec.setWidth 64) * 1099511628211#64) 14695981039346656037#64

def bucketIdx (t : Table) (hash : BitVec 64) : Nat := (hash &&& (t.bucketCount - 1)).toNat

/-- The loop of `find_entry` over a chain, with its `memcmp`. `none` is an access
to memory that is not there. -/
def findIn (strings : Heap (List UInt8)) (str : List UInt8) (hash : BitVec 64) : List Entry → Option (Option Entry)
  | [] => some none
  | e :: chain =>
    if e.hash = hash ∧ e.len = str.length then
      match strings.cells e.str with
      | none => none
      | some text => if text.take str.length = str then some (some e) else findIn strings str hash chain
    else findIn strings str hash chain

def findEntry (s : Store) (str : List UInt8) (hash : BitVec 64) : Option (Option Entry) :=
  match s.table.buckets[bucketIdx s.table hash]? with
  | none => none
  | some chain => findIn s.strings str hash chain

structure Grants where
  entry : Bool
  string : Bool
  deriving DecidableEq, Repr

def createEntry (s : Store) (str : List UInt8) (hash : BitVec 64) (grants : Grants) : Option (Option Entry × Store) :=
  if !grants.entry then some (none, s)
  else if !grants.string then some (none, s)
  else
    let e : Entry := ⟨s.strings.next, str.length, hash⟩
    match s.table.buckets[bucketIdx s.table hash]? with
    | none => none
    | some chain =>
      some (some e,
        { table :=
            { s.table with
              buckets := s.table.buckets.set (bucketIdx s.table hash) (e :: chain)
              stringCount := s.table.stringCount + 1
              totalBytes := s.table.totalBytes + (str.length + 1) }
          strings := s.strings.alloc (str ++ [0]) })

def internLocked (s : Store) (str : List UInt8) (hash : BitVec 64) (grants : Grants) : Option (Option Entry × Store) :=
  match findEntry s str hash with
  | none => none
  | some (some e) => some (some e, s)
  | some none => createEntry s str hash grants

def Table.zero : Table := ⟨[], 0, 0, 0, false⟩

def initialTableSize : Nat := 1024

def akInternInit (t : Table) (granted : Bool) : Table :=
  if t.initialized then t
  else if !granted then { t with buckets := [] }
  else ⟨List.replicate initialTableSize [], BitVec.ofNat 64 initialTableSize, 0, 0, true⟩

def akInternStats (t : Table) : Nat × Nat := if !t.initialized then (0, 0) else (t.stringCount, t.totalBytes)

def akInternClear (s : Store) : Store :=
  if !s.table.initialized then s
  else
    { table := { s.table with buckets := s.table.buckets.map fun _ => [], stringCount := 0, totalBytes := 0 }
      strings := s.table.buckets.flatten.foldl (fun strings e => strings.free e.str) s.strings }

inductive CallPhase
  | idle
  | entered (str : List UInt8)
  | hashed (str : List UInt8) (hash : BitVec 64)
  | leaving (str : List UInt8) (entry : Option Entry)
  deriving DecidableEq, Repr

def akInternN (str : Option (List UInt8)) : CallPhase :=
  match str with
  | none => .idle
  | some str => .entered str

def akIntern (str : Option (List UInt8)) : CallPhase :=
  match str with
  | none => .idle
  | some str => akInternN (some (str.takeWhile (· ≠ 0)))

inductive Event
  | interned (str : List UInt8)
  | returned (str : List UInt8) (ptr : Option Nat)
  deriving DecidableEq, Repr

def internStep (s : Store) (grants : Grants) : CallPhase → Option (CallPhase × Store × List Event)
  | .idle => none
  | .entered str =>
    if !s.table.initialized then some (.leaving str none, s, []) else some (.hashed str (hashString str), s, [])
  | .hashed str hash =>
    match internLocked s str hash grants with
    | none => none
    | some (none, s') => some (.leaving str none, s', [])
    | some (some e, s') => some (.leaving str (some e), s', [.interned str])
  | .leaving str entry => some (.idle, s, [.returned str (entry.map (·.str))])

variable {ι : Type} [DecidableEq ι]

structure System (ι : Type) where
  store : Store
  calls : ι → CallPhase

inductive Step : System ι → List Event → System ι → Prop
  | begin (s : System ι) (i : ι) (p : CallPhase) (hidle : s.calls i = .idle)
    (hp : ∃ str, p = akIntern str ∨ p = akInternN str) :
    Step s [] { s with calls := Function.update s.calls i p }
  | call (s : System ι) (i : ι) (grants : Grants) (p' : CallPhase) (store : Store) (events : List Event)
    (h : internStep s.store grants (s.calls i) = some (p', store, events)) :
    Step s events ⟨store, Function.update s.calls i p'⟩

def System.start (granted : Bool) (strings : Heap (List UInt8)) : System ι :=
  ⟨⟨akInternInit .zero granted, strings⟩, fun _ => .idle⟩

end Ak24.InternModel
