import Ak24.PathResolve

namespace Ak24.PathJoin

open PathResolve

/-- The names of a path: what stands between its slashes, if anything does. -/
def parts (path : Name) : List Name := (path.splitOn slash).filter (· ≠ [])

def joinPath (x y : Name) : Name :=
  if x = [] then y
  else if y = [] then x
  else if x.getLast? = some slash then (if y.head? = some slash then x ++ y.tail else x ++ y)
  else if y.head? = some slash then x ++ y else x ++ slash :: y

def joinAll (paths : List Name) : Name := paths.foldl joinPath []

section Parts

@[simp]
theorem parts_nil : parts [] = [] := rfl

theorem parts_append (x y : Name) : parts (x ++ slash :: y) = parts x ++ parts y := by
  rw [parts, List.splitOn_append_cons_self, List.filter_append]
  rfl

theorem parts_slash (path : Name) : parts (slash :: path) = parts path := parts_append [] path

theorem parts_trailing (path : Name) : parts (path ++ [slash]) = parts path := by
  rw [parts_append, parts_nil, List.append_nil]

theorem parts_name {name : Name} (hne : name ≠ []) (hs : slash ∉ name) : parts name = [name] := by
  rw [parts, List.splitOn_eq_singleton hs]
  simp [hne]

theorem walk_parts (dir : List Name) (path : Name) : walk dir (path.splitOn slash) = walk dir (parts path) := by
  rw [parts]
  generalize path.splitOn slash = names
  induction names generalizing dir with
  | nil => rfl
  | cons name names ih =>
      by_cases h : name = []
      · subst h
        simpa [walk, enter] using ih dir
      · simpa [walk, h] using ih (enter dir name)

end Parts

section Join

variable {x y z : Name}

@[simp]
theorem joinPath_nil_left (y : Name) : joinPath [] y = y := if_pos rfl

@[simp]
theorem joinPath_nil_right (x : Name) : joinPath x [] = x := by
  by_cases h : x = [] <;> simp [joinPath, h]

theorem joinPath_eq (hx : x ≠ []) (hy : y ≠ []) :
    joinPath x y =
      if x.getLast? = some slash then (if y.head? = some slash then x ++ y.tail else x ++ y)
      else if y.head? = some slash then x ++ y else x ++ slash :: y := by
  rw [joinPath, if_neg hx, if_neg hy]

theorem joinPath_ne_nil (hx : x ≠ []) (y : Name) : joinPath x y ≠ [] := by
  by_cases hy : y = []
  · rwa [hy, joinPath_nil_right]
  · rw [joinPath_eq hx hy]
    split_ifs <;> simp [hx]

theorem joinPath_head? (hx : x ≠ []) (y : Name) : (joinPath x y).head? = x.head? := by
  by_cases hy : y = []
  · rw [hy, joinPath_nil_right]
  · rw [joinPath_eq hx hy]
    split_ifs <;> exact List.head?_append_of_ne_nil x hx

theorem joinPath_getLast? (x : Name) (hy : y ≠ []) : (joinPath x y).getLast? = y.getLast? := by
  by_cases hx : x = []
  · rw [hx, joinPath_nil_left]
  rw [joinPath_eq hx hy]
  split_ifs with hlast hfirst
  · obtain ⟨d, y, rfl⟩ := List.exists_cons_of_ne_nil hy
    obtain rfl : d = slash := by simpa using hfirst
    by_cases hy' : y = []
    · simp [hy', hlast]
    · rw [List.tail_cons, List.getLast?_append_of_ne_nil x hy', List.getLast?_cons_of_ne_nil hy']
  · exact List.getLast?_append_of_ne_nil x hy
  · exact List.getLast?_append_of_ne_nil x hy
  · rw [List.getLast?_append_of_ne_nil x (List.cons_ne_nil _ _), List.getLast?_cons_of_ne_nil hy]

/-- What stands between two paths depends on the last byte of the one and the
first of the other; a join has the last byte and the first of its ends. -/
theorem joinPath_assoc (x y z : Name) : joinPath (joinPath x y) z = joinPath x (joinPath y z) := by
  by_cases hx : x = []
  · rw [hx, joinPath_nil_left, joinPath_nil_left]
  by_cases hy : y = []
  · rw [hy, joinPath_nil_right, joinPath_nil_left]
  by_cases hz : z = []
  · rw [hz, joinPath_nil_right, joinPath_nil_right]
  rw [joinPath_eq (joinPath_ne_nil hx y) hz, joinPath_getLast? x hy, joinPath_eq hx (joinPath_ne_nil hy z),
    joinPath_head? hy z, joinPath_eq hx hy, joinPath_eq hy hz]
  split_ifs <;> simp [List.tail_append_of_ne_nil hy]

theorem parts_joinPath (x y : Name) : parts (joinPath x y) = parts x ++ parts y := by
  by_cases hx : x = []
  · rw [hx, joinPath_nil_left, parts_nil, List.nil_append]
  by_cases hy : y = []
  · rw [hy, joinPath_nil_right, parts_nil, List.append_nil]
  rw [joinPath_eq hx hy]
  split_ifs with hlast hfirst hfirst
  · obtain ⟨x', rfl⟩ := List.getLast?_eq_some_iff.mp hlast
    obtain ⟨y', rfl⟩ := List.head?_eq_some_iff.mp hfirst
    rw [List.tail_cons, List.append_assoc, List.singleton_append, parts_append, parts_trailing, parts_slash]
  · obtain ⟨x', rfl⟩ := List.getLast?_eq_some_iff.mp hlast
    rw [List.append_assoc, List.singleton_append, parts_append, parts_trailing]
  · obtain ⟨y', rfl⟩ := List.head?_eq_some_iff.mp hfirst
    rw [parts_append, parts_slash]
  · exact parts_append x y

variable (xs ys : List Name)

theorem foldl_joinPath (x : Name) : ys.foldl joinPath x = joinPath x (joinAll ys) := by
  induction ys generalizing x with
  | nil => exact (joinPath_nil_right x).symm
  | cons y ys ih =>
      have hall : joinAll (y :: ys) = joinPath y (joinAll ys) := by
        rw [joinAll, List.foldl_cons, joinPath_nil_left, ih]
      rw [List.foldl_cons, ih, hall, joinPath_assoc]

theorem joinAll_append : joinAll (xs ++ ys) = joinPath (joinAll xs) (joinAll ys) := by
  rw [joinAll, List.foldl_append, foldl_joinPath]
  rfl

theorem joinAll_cons (x : Name) : joinAll (x :: xs) = joinPath x (joinAll xs) := by
  rw [joinAll, List.foldl_cons, joinPath_nil_left, foldl_joinPath]

theorem joinAll_group (zs : List Name) : joinAll (xs ++ joinAll ys :: zs) = joinAll (xs ++ ys ++ zs) := by
  rw [joinAll_append, joinAll_cons, joinAll_append, joinAll_append, joinPath_assoc]

theorem parts_joinAll : parts (joinAll xs) = xs.flatMap parts := by
  induction xs with
  | nil => rfl
  | cons x xs ih => rw [joinAll_cons, parts_joinPath, ih, List.flatMap_cons]

theorem parts_intercalate : parts ([slash].intercalate xs) = xs.flatMap parts := by
  induction xs with
  | nil => rfl
  | cons x xs ih =>
      cases xs with
      | nil => simp
      | cons y ys =>
          have hcons : [slash].intercalate (x :: y :: ys) = x ++ slash :: [slash].intercalate (y :: ys) := by simp
          rw [hcons, parts_append, ih, List.flatMap_cons (x := x)]

theorem parts_names {names : List Name} (h : ∀ name ∈ names, name ≠ [] ∧ slash ∉ name) :
    parts ([slash].intercalate names) = names := by
  rw [parts_intercalate]
  induction names with
  | nil => rfl
  | cons name names ih =>
      obtain ⟨hne, hs⟩ := h name List.mem_cons_self
      rw [List.flatMap_cons, parts_name hne hs, ih fun n hn => h n (List.mem_cons_of_mem _ hn)]
      rfl

end Join

end Ak24.PathJoin
