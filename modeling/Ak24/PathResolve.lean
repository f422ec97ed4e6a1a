import Mathlib

namespace Ak24.PathResolve

abbrev Name := List UInt8

def slash : UInt8 := 47

def dot : Name := [46]

def dotdot : Name := [46, 46]

def enter (dir : List Name) (name : Name) : List Name :=
  if name = [] ∨ name = dot then dir else if name = dotdot then dir.dropLast else dir ++ [name]

def walk (dir : List Name) (names : List Name) : List Name := names.foldl enter dir

def resolve (base : List Name) (path : Name) : List Name :=
  walk (if path.head? = some slash then [] else base) (path.splitOn slash)

/-- How many times a walk that starts `depth` directories deep goes above its
start. -/
def climbs : Nat → List Name → Nat
  | _, [] => 0
  | depth, name :: names =>
    if name = [] ∨ name = dot then climbs depth names
    else if name = dotdot then (if depth = 0 then climbs 0 names + 1 else climbs (depth - 1) names)
    else climbs (depth + 1) names

def Plain (name : Name) : Prop := name ≠ [] ∧ name ≠ dot ∧ name ≠ dotdot

theorem enter_plain {name : Name} (h : Plain name) (dir : List Name) : enter dir name = dir ++ [name] := by
  rw [enter, if_neg (by simp [h.1, h.2.1]), if_neg h.2.2]

theorem enter_cases (dir : List Name) (name : Name) :
    enter dir name = dir ∨ enter dir name = dir.dropLast ∨ Plain name ∧ enter dir name = dir ++ [name] := by
  rw [enter]
  split_ifs with h1 h2
  · exact Or.inl rfl
  · exact Or.inr (Or.inl rfl)
  · rw [not_or] at h1
    exact Or.inr (Or.inr ⟨⟨h1.1, h1.2, h2⟩, rfl⟩)

theorem walk_plain {names : List Name} (h : ∀ name ∈ names, Plain name) (dir : List Name) :
    walk dir names = dir ++ names := by
  induction names generalizing dir with
  | nil => simp [walk]
  | cons name names ih =>
      have hstep : walk dir (name :: names) = walk (dir ++ [name]) names := by
        rw [walk, List.foldl_cons, enter_plain (h name (by simp))]
        rfl
      rw [hstep, ih (fun n hn => h n (by simp [hn])), List.append_assoc, List.singleton_append]

theorem mem_walk {P : Name → Prop} {names dir : List Name} (hdir : ∀ name ∈ dir, P name)
    (hnames : ∀ name ∈ names, Plain name → P name) : ∀ name ∈ walk dir names, P name := by
  induction names generalizing dir with
  | nil => exact hdir
  | cons name names ih =>
      have hstep : walk dir (name :: names) = walk (enter dir name) names := rfl
      rw [hstep]
      apply ih
      · intro n hn
        rcases enter_cases dir name with he | he | ⟨hp, he⟩ <;> rw [he] at hn
        · exact hdir n hn
        · exact hdir n (List.mem_of_mem_dropLast hn)
        · rcases List.mem_append.mp hn with hn | hn
          · exact hdir n hn
          · rw [List.mem_singleton.mp hn]
            exact hnames name (by simp) hp
      · exact fun n hn => hnames n (by simp [hn])

/-- A walk from inside a directory goes up through it and then does what the
walk from the root does. -/
theorem walk_append (base dir names : List Name) :
    walk (base ++ dir) names = base.take (base.length - climbs dir.length names) ++ walk dir names := by
  induction names generalizing base dir with
  | nil => simp [walk, climbs]
  | cons name names ih =>
      have hstep : ∀ d, walk d (name :: names) = walk (enter d name) names := fun _ => rfl
      rw [hstep, hstep, climbs]
      by_cases h1 : name = [] ∨ name = dot
      · rw [if_pos h1, enter, enter, if_pos h1, if_pos h1, ih]
      · rw [if_neg h1]
        by_cases h2 : name = dotdot
        · rw [if_pos h2, enter, enter, if_neg h1, if_neg h1, if_pos h2, if_pos h2]
          cases dir using List.reverseRecOn with
          | nil =>
              have htake : ∀ k, (base.take (base.length - 1)).take ((base.take (base.length - 1)).length - k) =
                  base.take (base.length - (k + 1)) := by
                intro k
                rw [List.take_take, List.length_take]
                congr 1
                omega
              rw [List.append_nil, List.dropLast_eq_take, List.dropLast_nil, List.length_nil, if_pos rfl]
              have := ih (base.take (base.length - 1)) []
              rwa [List.append_nil, List.length_nil, htake] at this
          | append_singleton dir last =>
              rw [List.dropLast_append_of_ne_nil (by simp), List.dropLast_concat, ih, List.length_append,
                List.length_singleton, if_neg (Nat.succ_ne_zero _), Nat.add_sub_cancel]
        · rw [if_neg h2, enter, enter, if_neg h1, if_neg h1, if_neg h2, if_neg h2, List.append_assoc, ih,
            List.length_append, List.length_singleton]

theorem slash_notMem_of_split {path name : Name} (h : name ∈ path.splitOn slash) : slash ∉ name := by
  induction path generalizing name with
  | nil =>
      rw [List.splitOn_nil, List.mem_singleton] at h
      simp [h]
  | cons c path ih =>
      rw [List.splitOn_cons_eq_if_modifyHead] at h
      split_ifs at h with hc
      · rcases List.mem_cons.mp h with rfl | h
        · simp
        · exact ih h
      · obtain ⟨first, rest, hs⟩ := List.exists_cons_of_ne_nil (List.splitOn_ne_nil slash path)
        rw [hs] at h ih
        rw [List.modifyHead_cons] at h
        rcases List.mem_cons.mp h with rfl | h
        · have hne : slash ≠ c := by
            rintro rfl
            simp at hc
          have hfirst : slash ∉ first := ih (by simp)
          simpa [hne] using hfirst
        · exact ih (by simp [h])

theorem resolve_dot (base : List Name) : resolve base dot = base := by
  rw [resolve, if_neg (by decide), show dot.splitOn slash = [dot] from rfl]
  rfl

theorem resolve_relative {names : List Name} (hp : ∀ name ∈ names, Plain name) (hs : ∀ name ∈ names, slash ∉ name)
    (hne : names ≠ []) (base : List Name) : resolve base ([slash].intercalate names) = base ++ names := by
  have hhead : ([slash].intercalate names).head? ≠ some slash := by
    obtain ⟨first, rest, rfl⟩ := List.exists_cons_of_ne_nil hne
    obtain ⟨c, name, rfl⟩ := List.exists_cons_of_ne_nil (hp first (by simp)).1
    have hc : c ≠ slash := by
      rintro rfl
      exact hs (slash :: name) (by simp) (by simp)
    cases rest <;> simp [hc]
  rw [resolve, if_neg hhead, List.splitOn_intercalate slash hs hne, walk_plain hp]

theorem resolve_absolute {names : List Name} (hp : ∀ name ∈ names, Plain name) (hs : ∀ name ∈ names, slash ∉ name)
    (base : List Name) : resolve base (slash :: [slash].intercalate names) = names := by
  have hsplit : walk [] (([slash].intercalate names).splitOn slash) = names := by
    cases names with
    | nil => simp [walk, enter]
    | cons name names =>
        rw [List.splitOn_intercalate slash hs (by simp), walk_plain hp, List.nil_append]
  rw [resolve, List.head?_cons, if_pos rfl, List.splitOn_cons_eq_if_modifyHead, if_pos (by simp)]
  exact hsplit

end Ak24.PathResolve
