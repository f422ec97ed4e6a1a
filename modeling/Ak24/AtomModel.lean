import Ak24.AtomBond

namespace Ak24.AtomModel

open Objects AtomBond

variable {α : Type} [DecidableEq α]

structure Atoms (α : Type) where
  neighbors : α → Option Nat
  nodes : Heap (Neighbor α)

def Atoms.start (α : Type) : Atoms α := ⟨fun _ => none, .empty _⟩

def Atoms.push (s : Atoms α) (atom other : α) : Atoms α :=
  ⟨Function.update s.neighbors atom (some s.nodes.next), s.nodes.alloc ⟨other, s.neighbors atom⟩⟩

/-- A call with no other thread beside it. A node that is allocated alone is freed
again. -/
def akAtomBond (s : Atoms α) (atom₁ atom₂ : Option α) (granted₁ granted₂ : Bool) : Int × Atoms α :=
  match atom₁, atom₂ with
  | some atom₁, some atom₂ =>
    if !granted₁ || !granted₂ then (-1, s) else (0, (s.push atom₁ atom₂).push atom₂ atom₁)
  | _, _ => (-1, s)

/-- Taking a node out of an atom's list, behind the node before it if there is
one. In this and the following functions `none` is an access to a node that is
not there, or a loop that does not end. -/
def splice (s : Atoms α) (atom : α) (prev : Option Nat) (current : Nat) (next : Option Nat) : Option (Atoms α) :=
  match prev with
  | none => some ⟨Function.update s.neighbors atom next, s.nodes.free current⟩
  | some p =>
    match s.nodes.cells p with
    | none => none
    | some before => some ⟨s.neighbors, (s.nodes.store p { before with next }).free current⟩

def unlink (s : Atoms α) (atom other : α) : Nat → Option Nat → Option Nat → Option (Atoms α)
  | _, _, none => some s
  | 0, _, some _ => none
  | fuel + 1, prev, some current =>
    match s.nodes.cells current with
    | none => none
    | some node =>
      if node.atom = other then splice s atom prev current node.next
      else unlink s atom other fuel (some current) node.next

def akAtomUnbond (s : Atoms α) (atom₁ atom₂ : Option α) : Option (Int × Atoms α) :=
  match atom₁, atom₂ with
  | some atom₁, some atom₂ => do
    let s ← unlink s atom₁ atom₂ s.nodes.next none (s.neighbors atom₁)
    let s ← unlink s atom₂ atom₁ s.nodes.next none (s.neighbors atom₂)
    some (0, s)
  | _, _ => some (-1, s)

structure Cluster (α : Type) where
  atoms : List α
  capacity : Nat
  deriving DecidableEq, Repr

/-- Which allocations succeed: a cluster, its array, the `visited` array, and the
array of a cluster that grows to a capacity. -/
structure Grants where
  cluster : Bool
  atoms : Bool
  visited : Bool
  growth : Nat → Bool

def Grants.all : Grants := ⟨true, true, true, fun _ => true⟩

def akAtomClusterNew (initialCapacity : Nat) (grants : Grants) : Option (Cluster α) :=
  if !grants.cluster then none else if !grants.atoms then none else some ⟨[], initialCapacity⟩

def akAtomClusterAdd (cluster : Cluster α) (atom : α) (grants : Grants) : Int × Cluster α :=
  if cluster.atoms.length ≥ cluster.capacity then
    let newCapacity := cluster.capacity * 2 % 2 ^ 64
    if !grants.growth newCapacity then (-1, cluster) else (0, ⟨cluster.atoms ++ [atom], newCapacity⟩)
  else (0, { cluster with atoms := cluster.atoms ++ [atom] })

structure Search (α : Type) where
  visited : List α
  cluster : Cluster α
  deriving DecidableEq, Repr

def Search.visit (s : Search α) (visitedCapacity : Nat) (atom : α) : Search α :=
  if s.visited.length < visitedCapacity then { s with visited := s.visited ++ [atom] } else s

def Search.add (s : Search α) (atom : α) (grants : Grants) : Search α :=
  { s with cluster := (akAtomClusterAdd s.cluster atom grants).2 }

def walkList (nodes : Heap (Neighbor α)) : Nat → Option Nat → Option (List α)
  | _, none => some []
  | 0, some _ => none
  | fuel + 1, some n =>
    match nodes.cells n with
    | none => none
    | some node => (walkList nodes fuel node.next).map (node.atom :: ·)

def akAtomNeighborsRecursive (s : Atoms α) (grants : Grants) (visitedCapacity : Nat) :
    Nat → α → Search α → Option (Search α)
  | 0, atom, st =>
    if atom ∈ st.visited then some st else some ((st.visit visitedCapacity atom).add atom grants)
  | left + 1, atom, st =>
    if atom ∈ st.visited then some st
    else do
      let list ← walkList s.nodes s.nodes.next (s.neighbors atom)
      list.foldlM (fun st neighbor => akAtomNeighborsRecursive s grants visitedCapacity left neighbor st)
        (st.visit visitedCapacity atom)

def akAtomNeighbors (s : Atoms α) (atom : Option α) (distance : Nat) (grants : Grants) :
    Option (Option (Cluster α)) :=
  match atom with
  | none => some none
  | some atom =>
    match akAtomClusterNew 16 grants with
    | none => some none
    | some cluster =>
      if distance = 0 then some (some (akAtomClusterAdd cluster atom grants).2)
      else if !grants.visited then some none
      else
        (akAtomNeighborsRecursive s grants 1024 distance atom ⟨[], cluster⟩).map fun st => some st.cluster

end Ak24.AtomModel
