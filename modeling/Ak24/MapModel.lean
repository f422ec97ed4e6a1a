import Mathlib

namespace Ak24.MapModel

abbrev Unsigned := BitVec 32

/-- A hash function and a key comparison as `map_init_generic` takes them:
comparing equal is an equivalence, and equal keys hash equally. -/
structure KeyOps (K : Type) where
  hash : K → Unsigned
  cmp : K → K → Int
  refl : ∀ a, cmp a a = 0
  symm : ∀ a b, cmp a b = 0 → cmp b a = 0
  trans : ∀ a b c, cmp a b = 0 → cmp b c = 0 → cmp a c = 0
  hash_eq : ∀ a b, cmp a b = 0 → hash a = hash b

def KeyOps.through {K K' : Type} (ops : KeyOps K) (f : K' → K) : KeyOps K' where
  hash a := ops.hash (f a)
  cmp a b := ops.cmp (f a) (f b)
  refl a := ops.refl (f a)
  symm a b := ops.symm (f a) (f b)
  trans a b c := ops.trans (f a) (f b) (f c)
  hash_eq a b := ops.hash_eq (f a) (f b)

structure MapNode (K V : Type) where
  hash : Unsigned
  key : K
  value : V
  deriving DecidableEq, Repr

/-- The chains in order; no chains stand for the null bucket array. -/
structure MapBase (K V : Type) where
  buckets : List (List (MapNode K V))
  nbuckets : Unsigned
  nnodes : Unsigned
  deriving DecidableEq, Repr

variable {K V : Type}

def mapInit (K V : Type) : MapBase K V := ⟨[], 0, 0⟩

def mapBucketidx (m : MapBase K V) (hash : Unsigned) : Nat := (hash &&& (m.nbuckets - 1)).toNat

/-- `none` is an access outside the bucket array. -/
def mapAddnode (m : MapBase K V) (node : MapNode K V) : Option (MapBase K V) :=
  match m.buckets[mapBucketidx m node.hash]? with
  | none => none
  | some chain => some { m with buckets := m.buckets.set (mapBucketidx m node.hash) (node :: chain) }

def collectNodes (buckets : List (List (MapNode K V))) : List (MapNode K V) :=
  buckets.foldr (fun chain nodes => chain.foldl (fun nodes node => node :: nodes) nodes) []

def addNodes : MapBase K V → List (MapNode K V) → Option (MapBase K V)
  | m, [] => some m
  | m, node :: nodes => do
    let m ← mapAddnode m node
    addNodes m nodes

/-- `granted` says whether the bucket array could be reallocated. -/
def mapResize (granted : Bool) (m : MapBase K V) (nbuckets : Unsigned) : Option (Int × MapBase K V) := do
  let nodes := collectNodes m.buckets
  let m := if granted then { m with buckets := List.replicate nbuckets.toNat [], nbuckets } else m
  let m ← if m.buckets = [] then some m
    else addNodes { m with buckets := List.replicate m.nbuckets.toNat [] } nodes
  some (if granted then 0 else -1, m)

def mapGetref (ops : KeyOps K) (m : MapBase K V) (key : K) : Option (Option (Nat × Nat)) :=
  let hash := ops.hash key
  if 0 < m.nbuckets then
    match m.buckets[mapBucketidx m hash]? with
    | none => none
    | some chain =>
      some ((chain.findIdx? fun node => node.hash == hash && ops.cmp node.key key == 0).map
        fun j => (mapBucketidx m hash, j))
  else some none

def mapGet (ops : KeyOps K) (m : MapBase K V) (key : K) : Option (Option V) := do
  match ← mapGetref ops m key with
  | none => some none
  | some (i, j) =>
    let chain ← m.buckets[i]?
    let node ← chain[j]?
    some (some node.value)

def makeRoom (granted : Bool) (m : MapBase K V) : Option (Int × MapBase K V) :=
  if m.nbuckets ≤ m.nnodes then mapResize granted m (if 0 < m.nbuckets then m.nbuckets <<< 1 else 1)
  else some (0, m)

structure Grants where
  node : Bool
  buckets : Bool
  deriving DecidableEq, Repr

def mapSet (ops : KeyOps K) (m : MapBase K V) (key : K) (value : V) (grants : Grants) :
    Option (Int × MapBase K V) := do
  match ← mapGetref ops m key with
  | some (i, j) =>
    let chain ← m.buckets[i]?
    let node ← chain[j]?
    some (0, { m with buckets := m.buckets.set i (chain.set j { node with value }) })
  | none =>
    if !grants.node then some (-1, m)
    else
      let (err, m) ← makeRoom grants.buckets m
      if err ≠ 0 then some (-1, m)
      else
        let m ← mapAddnode m ⟨ops.hash key, key, value⟩
        some (0, { m with nnodes := m.nnodes + 1 })

def mapRemove (ops : KeyOps K) (m : MapBase K V) (key : K) : Option (MapBase K V) := do
  match ← mapGetref ops m key with
  | none => some m
  | some (i, j) =>
    let chain ← m.buckets[i]?
    some { m with buckets := m.buckets.set i (chain.eraseIdx j), nnodes := m.nnodes - 1 }

structure MapIter where
  bucketidx : Unsigned
  node : Option Nat
  deriving DecidableEq, Repr

def mapIter : MapIter := ⟨-1, none⟩

def nextBucket (m : MapBase K V) : Nat → Unsigned → Option (Option K × MapIter)
  | 0, _ => none
  | fuel + 1, idx =>
    if m.nbuckets ≤ idx + 1 then some (none, ⟨idx + 1, none⟩)
    else
      match m.buckets[(idx + 1).toNat]? with
      | none => none
      | some [] => nextBucket m fuel (idx + 1)
      | some (node :: _) => some (some node.key, ⟨idx + 1, some 0⟩)

def mapNext (m : MapBase K V) (iter : MapIter) : Option (Option K × MapIter) :=
  match iter.node with
  | none => nextBucket m (m.nbuckets.toNat + 1) iter.bucketidx
  | some j => do
    let chain ← m.buckets[iter.bucketidx.toNat]?
    match chain[j + 1]? with
    | none => nextBucket m (m.nbuckets.toNat + 1) iter.bucketidx
    | some node => some (some node.key, ⟨iter.bucketidx, some (j + 1)⟩)

end Ak24.MapModel
