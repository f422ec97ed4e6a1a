import Ak24.Objects

namespace Ak24.ContextModel

open Objects

variable {K V : Type} [DecidableEq K]

/-- An `ak_context_t`: its bindings and the keys it is to hoist, each in the
order in which they came. -/
structure Context (K V : Type) where
  parent : Option Nat
  data : List (K × V)
  hoistQueue : List K
  deriving DecidableEq, Repr

abbrev World (K V : Type) := Heap (Context K V)

def mapGetGeneric (data : List (K × V)) (key : K) : Option V := data.lookup key

def mapSetGeneric (key : K) (value : V) : List (K × V) → List (K × V)
  | [] => [(key, value)]
  | (k, v) :: data => if k = key then (k, value) :: data else (k, v) :: mapSetGeneric key value data

theorem mapGet_cons (k key : K) (v : V) (data : List (K × V)) :
    mapGetGeneric ((k, v) :: data) key = if key = k then some v else mapGetGeneric data key := by
  rw [mapGetGeneric, List.lookup_cons]
  by_cases hk : key = k
  · rw [if_pos hk, beq_iff_eq.mpr hk]
  · rw [if_neg hk, beq_eq_false_iff_ne.mpr hk, mapGetGeneric]

theorem mapGet_set (key : K) (value : V) (data : List (K × V)) :
    mapGetGeneric (mapSetGeneric key value data) = Function.update (mapGetGeneric data) key (some value) := by
  funext k
  rw [Function.update_apply]
  induction data with
  | nil =>
      rw [mapSetGeneric, mapGet_cons]
  | cons entry data ih =>
      obtain ⟨k', v'⟩ := entry
      rw [mapSetGeneric]
      by_cases hkey : k' = key
      · rw [if_pos hkey, mapGet_cons, mapGet_cons]
        split_ifs with h h'
        · rfl
        · exact absurd (h.trans hkey) h'
        · rename_i h'
          exact absurd (h'.trans hkey.symm) h
        · rfl
      · rw [if_neg hkey, mapGet_cons, mapGet_cons, ih]
        split_ifs with h h'
        · exact absurd (h.symm.trans h') hkey
        · rfl
        · rfl
        · rfl

def akContextNew (w : World K V) : Option Nat × World K V := (some w.next, w.alloc ⟨none, [], []⟩)

def akContextPush (w : World K V) (ctx : Option Nat) : Option Nat × World K V :=
  match ctx with
  | none => (none, w)
  | some p => (some w.next, w.alloc ⟨some p, [], []⟩)

def hoistAll (data : List (K × V)) (queue : List K) (parentData : List (K × V)) : List (K × V) :=
  queue.foldl
    (fun parentData key =>
      match mapGetGeneric data key with
      | some value => mapSetGeneric key value parentData
      | none => parentData)
    parentData

/-- `none` is an access to a context that was freed. -/
def akContextPop (w : World K V) (ctx : Option Nat) : Option (Option Nat × World K V) :=
  match ctx with
  | none => some (none, w)
  | some i => do
    let c ← w.cells i
    match c.parent with
    | none => some (none, w.free i)
    | some p =>
      let parent ← w.cells p
      some (some p, (w.store p { parent with data := hoistAll c.data c.hoistQueue parent.data }).free i)

def akContextSet (w : World K V) (ctx : Option Nat) (key : Option K) (value : V) : Option (Int × World K V) :=
  match ctx, key with
  | some i, some key => do
    let c ← w.cells i
    some (0, w.store i { c with data := mapSetGeneric key value c.data })
  | _, _ => some (-1, w)

def search (w : World K V) (key : K) : Nat → Option Nat → Option (Option (Nat × V))
  | 0, _ => none
  | _ + 1, none => some none
  | fuel + 1, some i => do
    let c ← w.cells i
    match mapGetGeneric c.data key with
    | some value => some (some (i, value))
    | none => search w key fuel c.parent

def lookupFrom {β : Type} (found : Nat → V → β) (other : β) (w : World K V) (ctx : Option Nat) (key : Option K) :
    Option β :=
  match ctx, key with
  | some i, some key => do
    let r ← search w key (w.next + 1) (some i)
    match r with
    | some (j, value) => some (found j value)
    | none => some other
  | _, _ => some other

def akContextGet (null : V) (w : World K V) (ctx : Option Nat) (key : Option K) : Option V :=
  lookupFrom (fun _ value => value) null w ctx key

def akContextGetContainingContext (w : World K V) (ctx : Option Nat) (key : Option K) : Option (Option Nat) :=
  lookupFrom (fun j _ => some j) none w ctx key

def akContextHas (w : World K V) (ctx : Option Nat) (key : Option K) : Option Int :=
  lookupFrom (fun _ _ => 1) 0 w ctx key

def akContextHoist (w : World K V) (ctx : Option Nat) (key : Option K) : Option (Int × World K V) :=
  match ctx, key with
  | some i, some key => do
    let c ← w.cells i
    match c.parent with
    | none => some (-1, w)
    | some _ =>
      if key ∈ c.hoistQueue then some (0, w)
      else some (0, w.store i { c with hoistQueue := c.hoistQueue ++ [key] })
  | _, _ => some (-1, w)

end Ak24.ContextModel
