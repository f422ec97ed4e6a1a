import Mathlib

namespace Ak24.BoundedQueue

variable {α : Type}

inductive Call (α : Type)
  | push (item : α)
  | pop
  | peek
  | count
  deriving DecidableEq, Repr

inductive Ret (α : Type)
  | status (code : Int)
  | item (value : Option α)
  | size (n : Nat)
  deriving DecidableEq, Repr

def step (cap : Nat) (q : List α) : Call α → Ret α × List α
  | .push a => if q.length = cap then (.status (-1), q) else (.status 0, q ++ [a])
  | .pop => (.item q.head?, q.tail)
  | .peek => (.item q.head?, q)
  | .count => (.size q.length, q)

def results (cap : Nat) : List α → List (Call α) → List (Ret α)
  | _, [] => []
  | q, call :: calls => (step cap q call).1 :: results cap (step cap q call).2 calls

def taken (q : List α) : Call α → Nat
  | .pop => min 1 q.length
  | _ => 0

end Ak24.BoundedQueue
