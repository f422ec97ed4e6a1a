import Mathlib

namespace Ak24.Blocks

variable {β : Type}

def alloc (n : Nat) : List (Option β) := List.replicate n none

def realloc (block : List (Option β)) (n : Nat) : List (Option β) :=
  block.take n ++ List.replicate (n - block.length) none

/-- The bytes at an offset; `none` is an access outside of the block. -/
def read (block : List (Option β)) (offset n : Nat) : Option (List (Option β)) :=
  if offset + n ≤ block.length then some ((block.drop offset).take n) else none

def write (block : List (Option β)) (offset : Nat) (bytes : List (Option β)) : Option (List (Option β)) :=
  if offset + bytes.length ≤ block.length then
    some (block.take offset ++ bytes ++ block.drop (offset + bytes.length))
  else none

def fetch (block : List (Option β)) (i : Nat) : Option β := block[i]?.join

def put (block : List (Option β)) (i : Nat) (x : β) : Option (List (Option β)) :=
  if i < block.length then some (block.set i (some x)) else none

/-- The block begins with the bytes of a list. -/
def Holds (block : List (Option β)) (l : List β) : Prop := ∃ rest, block = l.map some ++ rest

variable {block : List (Option β)} {l l' p q : List β} {n offset : Nat}

@[simp]
theorem length_alloc : (alloc n : List (Option β)).length = n := List.length_replicate

@[simp]
theorem length_realloc : (realloc block n).length = n := by
  rw [realloc, List.length_append, List.length_take, List.length_replicate]
  omega

theorem length_write {block' : List (Option β)} {bytes : List (Option β)} (h : write block offset bytes = some block') :
    block'.length = block.length := by
  unfold write at h
  split_ifs at h with hroom
  cases h
  simp only [List.length_append, List.length_take, List.length_drop]
  omega

theorem holds_nil (block : List (Option β)) : Holds block [] := ⟨block, rfl⟩

theorem Holds.length_le (h : Holds block l) : l.length ≤ block.length := by
  obtain ⟨rest, rfl⟩ := h
  simp

theorem Holds.left (h : Holds block (p ++ q)) : Holds block p := by
  obtain ⟨rest, rfl⟩ := h
  exact ⟨q.map some ++ rest, by simp⟩

theorem Holds.take (h : Holds block l) (n : Nat) : Holds block (l.take n) := by
  rw [← List.take_append_drop n l] at h
  exact h.left

theorem Holds.unique (h : Holds block l) (h' : Holds block l') (hlength : l.length = l'.length) : l = l' := by
  obtain ⟨rest, rfl⟩ := h
  obtain ⟨rest', heq⟩ := h'
  have hmap := (List.append_inj heq (by simpa using hlength)).1
  exact List.map_injective_iff.mpr (Option.some_injective β) hmap

theorem Holds.getElem? (h : Holds block l) (hn : n < l.length) : block[n]? = some (some l[n]) := by
  obtain ⟨rest, rfl⟩ := h
  rw [List.getElem?_append_left (by simpa using hn), List.getElem?_map, List.getElem?_eq_getElem hn, Option.map_some]

theorem Holds.read (h : Holds block l) (hn : offset + n ≤ l.length) :
    Blocks.read block offset n = some (((l.drop offset).take n).map some) := by
  have hle := h.length_le
  obtain ⟨rest, rfl⟩ := h
  rw [Blocks.read, if_pos (by omega), List.drop_append_of_le_length (by simp; omega),
    List.take_append_of_le_length (by simp; omega), List.map_take, List.map_drop]

theorem Holds.write (h : Holds block p) (hroom : p.length + l.length ≤ block.length) :
    ∃ block', write block p.length (l.map some) = some block' ∧ Holds block' (p ++ l) := by
  refine ⟨_, if_pos (by simpa using hroom), block.drop (p.length + l.length), ?_⟩
  obtain ⟨rest, rfl⟩ := h
  simp

theorem Holds.overwrite (h : Holds block (p ++ q)) (hlength : l.length = p.length) :
    ∃ block', Blocks.write block 0 (l.map some) = some block' ∧ Holds block' (l ++ q) := by
  have hle := h.length_le
  obtain ⟨rest, rfl⟩ := h
  rw [List.length_append] at hle
  refine ⟨_, if_pos (by simp; omega), rest, ?_⟩
  simp [hlength]

theorem Holds.realloc (h : Holds block l) (hn : l.length ≤ n) : Holds (realloc block n) l := by
  obtain ⟨rest, rfl⟩ := h
  refine ⟨rest.take (n - l.length) ++ List.replicate (n - (l.map some ++ rest).length) none, ?_⟩
  rw [Blocks.realloc, List.take_append, List.take_of_length_le (by simpa using hn), List.length_map, List.append_assoc]

section Rotations

theorem rotate_of_mod (h : l.length = 0 ∨ n % l.length = 0) : l.rotate n = l := by
  rcases h with hzero | hmod
  · rw [List.length_eq_zero_iff.mp hzero, List.rotate_nil]
  · rw [← List.rotate_mod, hmod, List.rotate_zero]

theorem reverse_rotate_eq : (l.reverse.rotate n).reverse =
    l.drop (l.length - n % l.length) ++ l.take (l.length - n % l.length) := by
  rw [List.rotate_eq_drop_append_take_mod, List.length_reverse, List.reverse_append, List.take_reverse,
    List.drop_reverse, List.reverse_reverse, List.reverse_reverse]

theorem reverse_rotate_of_mod (h : l.length = 0 ∨ n % l.length = 0) : (l.reverse.rotate n).reverse = l := by
  rw [rotate_of_mod (by rwa [List.length_reverse]), List.reverse_reverse]

end Rotations

section Cells

variable {block' : List (Option β)} {i w : Nat} {x : β}

theorem length_put (h : put block i x = some block') : block'.length = block.length := by
  unfold put at h
  split_ifs at h
  cases h
  exact List.length_set

theorem put_append (p : List (Option β)) (c : Option β) (q : List (Option β)) :
    put (p ++ c :: q) p.length x = some (p ++ some x :: q) := by
  rw [put, if_pos (by simp), List.set_append_right _ _ le_rfl, Nat.sub_self, List.set_cons_zero]

theorem fetch_append (p : List (Option β)) (c : Option β) (q : List (Option β)) :
    fetch (p ++ c :: q) p.length = c := by
  rw [fetch, List.getElem?_append_right le_rfl, Nat.sub_self, List.getElem?_cons_zero, Option.join_some]

theorem Holds.fetch (h : Holds block l) (hi : i < l.length) : Blocks.fetch block i = some l[i] := by
  rw [Blocks.fetch, h.getElem? hi, Option.join_some]

def Gap (block : List (Option β)) (p : List β) (w : Nat) (q : List β) : Prop :=
  ∃ cells rest, cells.length = w ∧ block = p.map some ++ cells ++ q.map some ++ rest

theorem Holds.gap {m : List β} (h : Holds block (p ++ m ++ q)) : Gap block p m.length q := by
  obtain ⟨rest, rfl⟩ := h
  exact ⟨m.map some, rest, List.length_map _, by simp⟩

theorem Holds.gap_end (h : Holds block p) (hroom : p.length + w ≤ block.length) : Gap block p w [] := by
  obtain ⟨rest, rfl⟩ := h
  refine ⟨rest.take w, rest.drop w, ?_, by simp⟩
  rw [List.length_append, List.length_map] at hroom
  rw [List.length_take]
  omega

theorem Gap.holds (h : Gap block p 0 q) : Holds block (p ++ q) := by
  obtain ⟨cells, rest, hcells, rfl⟩ := h
  rw [List.eq_nil_of_length_eq_zero hcells]
  exact ⟨rest, by simp⟩

theorem Gap.left (h : Gap block p w q) : Holds block p := by
  obtain ⟨cells, rest, -, rfl⟩ := h
  exact ⟨cells ++ q.map some ++ rest, by simp⟩

theorem Gap.put (h : Gap block p (w + 1) q) (x : β) :
    ∃ block', Blocks.put block p.length x = some block' ∧ Gap block' (p ++ [x]) w q := by
  obtain ⟨cells, rest, hcells, rfl⟩ := h
  obtain ⟨c, cells, rfl⟩ := List.exists_cons_of_length_eq_add_one hcells
  have hput := put_append (x := x) (p.map some) c (cells ++ q.map some ++ rest)
  rw [List.length_map] at hput
  refine ⟨_, by simpa using hput, cells, rest, by simpa using hcells, by simp⟩

theorem Gap.down (h : Gap block p (w + 1) (x :: q)) :
    Blocks.fetch block (p.length + (w + 1)) = some x ∧
      ∃ block', Blocks.put block p.length x = some block' ∧ Gap block' (p ++ [x]) (w + 1) q := by
  obtain ⟨cells, rest, hcells, rfl⟩ := h
  constructor
  · have hfetch := fetch_append (p.map some ++ cells) (some x) (q.map some ++ rest)
    rw [List.length_append, List.length_map, hcells] at hfetch
    simpa using hfetch
  · obtain ⟨c, cells, rfl⟩ := List.exists_cons_of_length_eq_add_one hcells
    have hput := put_append (x := x) (p.map some) c (cells ++ some x :: (q.map some ++ rest))
    rw [List.length_map] at hput
    exact ⟨_, by simpa using hput, cells ++ [some x], rest, by simpa using hcells, by simp⟩

theorem Gap.up (h : Gap block (p ++ [x]) (w + 1) q) :
    Blocks.fetch block p.length = some x ∧
      ∃ block', Blocks.put block (p.length + (w + 1)) x = some block' ∧ Gap block' p (w + 1) (x :: q) := by
  obtain ⟨cells, rest, hcells, rfl⟩ := h
  constructor
  · have hfetch := fetch_append (p.map some) (some x) (cells ++ q.map some ++ rest)
    rw [List.length_map] at hfetch
    simpa using hfetch
  · obtain ⟨cells, c, rfl⟩ := (List.eq_nil_or_concat' cells).resolve_left (List.ne_nil_of_length_eq_add_one hcells)
    have hput := put_append (x := x) (p.map some ++ some x :: cells) c (q.map some ++ rest)
    have hlength : (p.map some ++ some x :: cells).length = p.length + (w + 1) := by
      simp at hcells ⊢
      omega
    rw [hlength] at hput
    exact ⟨_, by simpa using hput, some x :: cells, rest, by simpa using hcells, by simp⟩

end Cells

end Ak24.Blocks
