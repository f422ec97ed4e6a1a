import Ak24.Blocks

namespace Ak24.Memories

open Blocks

variable {β : Type}

def load (memory : Nat → β) (ptr n : Nat) : List β := (List.range n).map fun i => memory (ptr + i)

def store (memory : Nat → β) (ptr : Nat) (bytes : List β) : Nat → β := fun x =>
  if ptr ≤ x then (bytes[x - ptr]?).getD (memory x) else memory x

def Agrees (memory : Nat → β) (ptr : Nat) (block : List (Option β)) : Prop :=
  ∀ i x, block[i]? = some (some x) → memory (ptr + i) = x

variable {memory memory' : Nat → β} {ptr n x i : Nat} {bytes : List β} {block block' : List (Option β)} {b : β}

@[simp]
theorem length_load : (load memory ptr n).length = n := by rw [load, List.length_map, List.length_range]

theorem getElem?_load : (load memory ptr n)[i]? = if i < n then some (memory (ptr + i)) else none := by
  split_ifs with hi
  · rw [load, List.getElem?_map, List.getElem?_range hi, Option.map_some]
  · exact List.getElem?_eq_none (by rw [length_load]; omega)

theorem store_outside (h : x < ptr ∨ ptr + bytes.length ≤ x) : store memory ptr bytes x = memory x := by
  rw [store]
  split_ifs with hle
  · rw [List.getElem?_eq_none (by omega), Option.getD_none]
  · rfl

theorem store_inside (h : bytes[i]? = some b) : store memory ptr bytes (ptr + i) = b := by
  rw [store, if_pos (Nat.le_add_right _ _), Nat.add_sub_cancel_left, h, Option.getD_some]

theorem store_load : store memory ptr (load memory ptr n) = memory := by
  funext x
  by_cases hx : x < ptr ∨ ptr + (load memory ptr n).length ≤ x
  · exact store_outside hx
  · rw [length_load] at hx
    obtain ⟨i, rfl⟩ := Nat.exists_eq_add_of_le (show ptr ≤ x by omega)
    exact store_inside (by rw [getElem?_load, if_pos (by omega)])

theorem store_append {more : List β} :
    store (store memory ptr bytes) (ptr + bytes.length) more = store memory ptr (bytes ++ more) := by
  funext x
  by_cases hmore : ptr + bytes.length ≤ x ∧ x < ptr + bytes.length + more.length
  · obtain ⟨i, rfl⟩ := Nat.exists_eq_add_of_le hmore.1
    have hi : more[i]? = some more[i] := List.getElem?_eq_getElem (by omega)
    rw [store_inside hi, Nat.add_assoc, store_inside]
    rw [List.getElem?_append_right (Nat.le_add_right _ _), Nat.add_sub_cancel_left, hi]
  · rw [store_outside (by omega)]
    by_cases hx : ptr ≤ x ∧ x < ptr + bytes.length
    · obtain ⟨i, rfl⟩ := Nat.exists_eq_add_of_le hx.1
      have hi : bytes[i]? = some bytes[i] := List.getElem?_eq_getElem (by omega)
      rw [store_inside hi, store_inside]
      rw [List.getElem?_append_left (by omega), hi]
    · rw [store_outside (by omega), store_outside (by rw [List.length_append]; omega)]

theorem load_succ : load memory ptr (n + 1) = load memory ptr n ++ [memory (ptr + n)] := by
  rw [load, List.range_succ, List.map_append]
  rfl

theorem Agrees.alloc : Agrees memory ptr (alloc n) := by
  intro i x h
  have hmem := List.eq_of_mem_replicate (List.mem_of_getElem? h)
  cases hmem

theorem Agrees.congr (h : Agrees memory ptr block)
    (hsame : ∀ i < block.length, memory' (ptr + i) = memory (ptr + i)) : Agrees memory' ptr block := by
  intro i x hx
  rw [hsame i (List.getElem?_eq_some_iff.mp hx).1]
  exact h i x hx

theorem Agrees.store_all (memory : Nat → β) (ptr : Nat) (bytes : List β) :
    Agrees (store memory ptr bytes) ptr (bytes.map some) := by
  intro i x hx
  rw [List.getElem?_map, Option.map_eq_some_iff] at hx
  obtain ⟨y, hy, hyx⟩ := hx
  cases hyx
  exact store_inside hy

theorem getElem?_realloc (h : (realloc block n)[i]? = some (some b)) : block[i]? = some (some b) := by
  by_cases hi : i < (block.take n).length
  · rw [realloc, List.getElem?_append_left hi, List.getElem?_take] at h
    split_ifs at h
    exact h
  · rw [realloc, List.getElem?_append_right (by omega)] at h
    cases List.eq_of_mem_replicate (List.mem_of_getElem? h)

theorem Agrees.resized (h : Agrees memory ptr block) : Agrees memory ptr (realloc block n) :=
  fun i x hx => h i x (getElem?_realloc hx)

theorem Agrees.copied (h : Agrees memory ptr block) (start : Nat) :
    Agrees (store memory start (load memory ptr block.length)) start (realloc block n) := by
  intro i x hx
  have hold := getElem?_realloc hx
  refine store_inside ?_
  rw [getElem?_load, if_pos (List.getElem?_eq_some_iff.mp hold).1, h i x hold]

theorem getElem?_write {offset : Nat} {cells : List (Option β)} (h : write block offset cells = some block') :
    block'[i]? = if offset ≤ i ∧ i < offset + cells.length then cells[i - offset]? else block[i]? := by
  rw [write] at h
  split_ifs at h with hroom
  cases h
  have htake : (block.take offset).length = offset := List.length_take_of_le (by omega)
  split_ifs with hin
  · rw [List.getElem?_append_left (by rw [List.length_append]; omega), List.getElem?_append_right (by omega), htake]
  · by_cases hlt : i < offset
    · rw [List.getElem?_append_left (by rw [List.length_append]; omega), List.getElem?_append_left (by omega),
        List.getElem?_take_of_lt hlt]
    · rw [List.getElem?_append_right (by rw [List.length_append]; omega), List.length_append, htake,
        List.getElem?_drop]
      congr 1
      omega

theorem Agrees.written {offset : Nat} (h : Agrees memory ptr block)
    (hwrite : write block offset (bytes.map some) = some block') :
    Agrees (store memory (ptr + offset) bytes) ptr block' := by
  intro i x hx
  rw [getElem?_write hwrite, List.length_map] at hx
  split_ifs at hx with hin
  · rw [List.getElem?_map, Option.map_eq_some_iff] at hx
    obtain ⟨y, hy, hyx⟩ := hx
    cases hyx
    have hplace : ptr + i = ptr + offset + (i - offset) := by omega
    rw [hplace]
    exact store_inside hy
  · rw [store_outside (by omega)]
    exact h i x hx

end Ak24.Memories
