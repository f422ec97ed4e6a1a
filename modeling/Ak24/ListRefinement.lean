import Ak24.ListModel
import Ak24.Transition

namespace Ak24.ListRefinement

open Objects Transition Blocks ListModel

variable {β : Type}

/-- What a call makes of a sequence, with its answer. A call that was refused
memory may fail, and leaves the sequence as it is. -/
def Outcome (grants : Grants) (xs : List β) : Op β → Answer β → List β → Prop
  | .push value, answer, xs' =>
    (answer = .status 0 ∧ xs' = xs ++ [value]) ∨
      (grants.growth = false ∨ grants.item = false) ∧ answer = .status (-1) ∧ xs' = xs
  | .pop, answer, xs' => answer = .item xs.getLast? ∧ xs' = xs.dropLast
  | .get index, answer, xs' => answer = .item xs[index]? ∧ xs' = xs
  | .set index value, answer, xs' =>
    (index < xs.length ∧ answer = .status 0 ∧ xs' = xs.set index value) ∨
      xs.length ≤ index ∧ answer = .status (-1) ∧ xs' = xs
  | .insert index value, answer, xs' =>
    (index ≤ xs.length ∧ answer = .status 0 ∧ xs' = xs.insertIdx index value) ∨
      (xs.length < index ∨ grants.growth = false ∨ grants.item = false) ∧ answer = .status (-1) ∧ xs' = xs
  | .remove index, answer, xs' =>
    (index < xs.length ∧ answer = .status 0 ∧ xs' = xs.eraseIdx index) ∨
      xs.length ≤ index ∧ answer = .status (-1) ∧ xs' = xs
  | .clear, answer, xs' => answer = .done ∧ xs' = []
  | .rotateLeft n, answer, xs' =>
    (answer = .status 0 ∧ xs' = xs.rotate n) ∨ grants.temp = false ∧ answer = .status (-1) ∧ xs' = xs
  | .rotateRight n, answer, xs' =>
    (answer = .status 0 ∧ xs' = (xs.reverse.rotate n).reverse) ∨
      grants.temp = false ∧ answer = .status (-1) ∧ xs' = xs

/-- What a list is for: a sequence. -/
inductive SequenceStep (xs : List β) : List (Event β) → List β → Prop
  | call (op : Op β) (grants : Grants) (answer : Answer β) (xs' : List β) (h : Outcome grants xs op answer xs') :
    SequenceStep xs [⟨op, grants, answer⟩] xs'

section Loops

variable {items source target : List (Option Nat)} {a p q m : List Nat} {w k start goal i : Nat}

theorem shiftUp_ok (h : Gap items p (w + 1) q) (hk : k ≤ p.length) :
    ∃ items', shiftUp (w + 1) (k + (w + 1)) (p.length + w) items = some items' ∧
      Gap items' (p.take k) (w + 1) (p.drop k ++ q) ∧ items'.length = items.length := by
  induction p using List.reverseRecOn generalizing q items with
  | nil =>
      obtain rfl : k = 0 := by simpa using hk
      refine ⟨items, ?_, h, rfl⟩
      cases w with
      | zero => rfl
      | succ w => exact if_neg (by simp)
  | append_singleton p x ih =>
      rw [List.length_append, List.length_singleton] at hk
      have hstart : (p ++ [x]).length + w = p.length + w + 1 := by
        simp only [List.length_append, List.length_singleton]
        omega
      rw [hstart, shiftUp]
      by_cases hlast : k = p.length + 1
      · refine ⟨items, if_neg (by omega), ?_, rfl⟩
        rwa [List.take_of_length_le (by simp; omega), List.drop_of_length_le (by simp; omega), List.nil_append]
      · obtain ⟨hfetch, items', hput, hgap⟩ := h.up
        obtain ⟨items'', hloop, hgap', hlength⟩ := ih hgap (by omega)
        refine ⟨items'', ?_, ?_, hlength.trans (length_put hput)⟩
        · rw [if_pos (by omega), Nat.add_assoc, Nat.add_sub_cancel, hfetch]
          dsimp only [Option.bind_eq_bind, Option.bind_some]
          rw [hput]
          exact hloop
        · rw [List.take_append_of_le_length (by omega), List.drop_append_of_le_length (by omega), List.append_assoc]
          exact hgap'

theorem shiftDown_ok (h : Gap items p (w + 1) q) :
    ∃ items', shiftDown (w + 1) q.length p.length items = some items' ∧ Gap items' (p ++ q) (w + 1) [] ∧
      items'.length = items.length := by
  induction q generalizing p items with
  | nil => exact ⟨items, rfl, by rwa [List.append_nil], rfl⟩
  | cons x q ih =>
      obtain ⟨hfetch, items', hput, hgap⟩ := h.down
      obtain ⟨items'', hloop, hgap', hlength⟩ := ih hgap
      refine ⟨items'', ?_, ?_, hlength.trans (length_put hput)⟩
      · rw [List.length_cons, shiftDown, hfetch]
        dsimp only [Option.bind_eq_bind, Option.bind_some]
        rw [hput]
        simpa using hloop
      · simpa using hgap'

theorem copyItems_ok (hs : Holds source (a ++ m)) (ha : a.length = start + i) (h : Gap target p m.length q)
    (hp : p.length = goal + i) :
    ∃ target', copyItems source start goal m.length i target = some target' ∧ Holds target' (p ++ m ++ q) ∧
      target'.length = target.length := by
  induction m generalizing a p target i with
  | nil =>
      refine ⟨target, rfl, ?_, rfl⟩
      rw [List.append_nil]
      exact h.holds
  | cons x m ih =>
      have hfetch : fetch source (start + i) = some x := by
        rw [← ha, hs.fetch (by simp)]
        simp
      obtain ⟨target', hput, hgap⟩ := h.put x
      rw [List.append_cons] at hs
      obtain ⟨target'', hloop, hheld, hlength⟩ := ih (i := i + 1) hs (by simp; omega) hgap (by simp; omega)
      refine ⟨target'', ?_, by simpa using hheld, hlength.trans (length_put hput)⟩
      rw [List.length_cons, copyItems, hfetch, ← hp]
      dsimp only [Option.bind_eq_bind, Option.bind_some]
      rw [hput]
      exact hloop

theorem freeItems_ok {heap : Heap β} {xs : List β} (hs : Holds items (p ++ q)) (hnodup : q.Nodup)
    (hstored : heap.Stores q xs) :
    ∃ heap', freeItems items q.length p.length heap = some heap' := by
  induction q generalizing p heap xs with
  | nil => exact ⟨heap, rfl⟩
  | cons x q ih =>
      obtain ⟨hx, hq⟩ := List.nodup_cons.mp hnodup
      cases xs with
      | nil => cases hstored
      | cons v xs =>
          have hfetch : fetch items p.length = some x := by
            rw [hs.fetch (by simp)]
            simp
          obtain ⟨hv, hrest⟩ := List.cons_eq_cons.mp hstored
          have hfree : freeItem heap x = some (heap.free x) := by
            rw [freeItem, hv, Option.map_some]
          rw [List.append_cons] at hs
          obtain ⟨heap', hloop⟩ := ih hs hq (Heap.Stores.free hrest hx)
          refine ⟨heap', ?_⟩
          rw [List.length_cons, freeItems, hfetch]
          dsimp only [Option.bind_eq_bind, Option.bind_some]
          rw [hfree]
          simpa using hloop

end Loops

theorem insertIdx_eq {xs : List β} {index : Nat} {value : β} (h : index ≤ xs.length) :
    xs.insertIdx index value = xs.take index ++ value :: xs.drop index := by
  obtain ⟨us, vs, rfl, rfl, hinsert⟩ := List.exists_of_modifyTailIdx (List.cons value) h
  rw [List.take_left, List.drop_left]
  exact hinsert

theorem notMem_eraseIdx {ptrs : List Nat} {index : Nat} (h : ptrs.Nodup) (hindex : index < ptrs.length) :
    ptrs[index] ∉ ptrs.eraseIdx index := by
  rw [← h.erase_getElem index hindex]
  exact h.not_mem_erase

structure ListOk (s : State β) (ptrs : List Nat) (xs : List β) : Prop where
  held : Holds s.list.items ptrs
  count : s.list.count = ptrs.length
  capacity : s.list.items.length = s.list.capacity
  nodup : ptrs.Nodup
  stored : s.heap.Stores ptrs xs

def contents (s : State β) : List β :=
  ((s.list.items.take s.list.count).reduceOption.map s.heap.cells).reduceOption

section Lists

variable {s s' : State β} {l : ListBase} {heap : Heap β} {ptrs : List Nat} {xs : List β} {grants : Grants}
  {index n : Nat} {value : β}

theorem listInit_ok (heap : Heap β) : ListOk ⟨listInit, heap⟩ [] [] :=
  ⟨holds_nil _, rfl, rfl, List.nodup_nil, rfl⟩

theorem ListOk.count_eq (h : ListOk s ptrs xs) : s.list.count = xs.length := h.count.trans h.stored.length_eq

theorem ListOk.contents_eq (h : ListOk s ptrs xs) : contents s = xs := by
  obtain ⟨rest, hitems⟩ := h.held
  have hptrs : (s.list.items.take s.list.count).reduceOption = ptrs := by
    rw [hitems, h.count, List.take_left' (by simp), List.reduceOption, List.filterMap_map]
    exact List.filterMap_some
  rw [contents, hptrs, h.stored, List.reduceOption, List.filterMap_map]
  exact List.filterMap_some

theorem ListOk.item (h : ListOk s ptrs xs) (hindex : index < xs.length) :
    ∃ p, p ∈ ptrs ∧ fetch s.list.items index = some p ∧ s.heap.cells p = some xs[index] := by
  have hlt : index < ptrs.length := by rwa [h.stored.length_eq]
  exact ⟨ptrs[index], List.getElem_mem hlt, h.held.fetch hlt, h.stored.getElem hlt hindex⟩

theorem listEnsureCapacity_ok (h : ListOk s ptrs xs) (granted : Bool) (hsmall : s.list.count < 2 ^ 31) :
    (∃ l, listEnsureCapacity s.list ((s.list.count + 1) % 2 ^ 32) granted = some (0, l) ∧
      ListOk ⟨l, s.heap⟩ ptrs xs ∧ l.count + 1 ≤ l.capacity ∧ l.count = s.list.count) ∨
    listEnsureCapacity s.list ((s.list.count + 1) % 2 ^ 32) granted = some (-1, s.list) ∧ granted = false ∧
      s.list.capacity ≤ s.list.count := by
  rw [Nat.mod_eq_of_lt (by omega)]
  unfold listEnsureCapacity
  by_cases hroom : s.list.capacity ≥ s.list.count + 1
  · rw [if_pos hroom]
    exact .inl ⟨s.list, rfl, h, hroom, rfl⟩
  · have hpos : 1 ≤ if s.list.capacity = 0 then listInitialCapacity else s.list.capacity := by
      simp only [listInitialCapacity]
      split_ifs <;> omega
    have hfuel : s.list.count + 1 ≤ _ * 2 ^ doublings :=
      le_trans (by simp only [doublings]; omega) (Nat.mul_le_mul_right (2 ^ doublings) hpos)
    obtain ⟨c, hloop, hge, -⟩ := Words.doubling_ok (w := 32) hpos (by omega) hfuel
    rw [if_neg hroom, hloop]
    cases granted with
    | false => exact .inr ⟨rfl, rfl, by omega⟩
    | true =>
        refine .inl ⟨_, rfl, ⟨h.held.realloc ?_, h.count, length_realloc, h.nodup, h.stored⟩, hge, rfl⟩
        have hcount := h.count
        omega

theorem ListOk.grown {p q : List Nat} {us vs : List β} {items : List (Option Nat)}
    (h : ListOk ⟨l, heap⟩ (p ++ q) (us ++ vs)) (hheld : Holds items (p ++ heap.next :: q))
    (hlength : items.length = l.items.length) (hparts : p.length = us.length) (hsmall : l.count < 2 ^ 31) (value : β) :
    ListOk ⟨{ l with items, count := (l.count + 1) % 2 ^ 32 }, heap.alloc value⟩ (p ++ heap.next :: q)
      (us ++ value :: vs) := by
  have hcount := h.count
  dsimp only at hcount
  refine ⟨hheld, ?_, hlength.trans h.capacity, ?_, ?_⟩
  · rw [Nat.mod_eq_of_lt (by omega)]
    simp at hcount ⊢
    omega
  · refine List.nodup_middle.mpr (List.nodup_cons.mpr ⟨?_, h.nodup⟩)
    intro hmem
    exact lt_irrefl _ (h.stored.lt_next hmem)
  · have hold := h.stored.alloc value
    rw [Heap.Stores, List.map_append, List.map_append] at hold
    obtain ⟨hus, hvs⟩ := List.append_inj hold (by simpa using hparts)
    rw [Heap.Stores, List.map_append, List.map_append, List.map_cons, List.map_cons, hus, hvs, Heap.alloc_self]

theorem listPush_cases (h : ListOk s ptrs xs) (grants : Grants) (value : β) (hsmall : s.list.count < 2 ^ 31) :
    (∃ s' ptrs', listPush s value grants = some (0, s') ∧ ListOk s' ptrs' (xs ++ [value])) ∨
      ∃ s', listPush s value grants = some (-1, s') ∧ ListOk s' ptrs xs ∧
        (grants.growth = false ∧ s.list.capacity ≤ s.list.count ∨ grants.item = false) := by
  unfold listPush
  rcases listEnsureCapacity_ok h grants.growth hsmall with ⟨l, hgrowth, hl, hroom, hcount⟩ | ⟨hgrowth, hrefused⟩
  · rw [hgrowth]
    dsimp only
    rw [if_neg (by decide)]
    cases hitem : grants.item with
    | false => exact .inr ⟨_, rfl, hl, .inr rfl⟩
    | true =>
        have hlcount := hl.count
        have hlcapacity := hl.capacity
        dsimp only at hlcount hlcapacity
        have hgap : Gap l.items ptrs 1 [] := hl.held.gap_end (by dsimp only; omega)
        obtain ⟨items, hput, hfilled⟩ := hgap.put s.heap.next
        have hheld := hfilled.holds
        rw [List.append_nil] at hheld
        have hl' : ListOk ⟨l, s.heap⟩ (ptrs ++ []) (xs ++ []) := by simpa only [List.append_nil] using hl
        have hgrown := hl'.grown hheld (length_put hput) h.stored.length_eq (by omega) value
        refine .inl ⟨_, _, ?_, hgrown⟩
        rw [hlcount, hput]
        rfl
  · rw [hgrowth]
    exact .inr ⟨_, rfl, h, .inl hrefused⟩

theorem listPush_ok (h : ListOk s ptrs xs) (grants : Grants) (value : β) (hsmall : s.list.count < 2 ^ 31) :
    ∃ c s' ptrs' xs', listPush s value grants = some (c, s') ∧ ListOk s' ptrs' xs' ∧
      Outcome grants xs (.push value) (.status c) xs' := by
  rcases listPush_cases h grants value hsmall with ⟨s', ptrs', hpush, hok⟩ | ⟨s', hpush, hok, hrefused⟩
  · exact ⟨0, s', ptrs', _, hpush, hok, .inl ⟨rfl, rfl⟩⟩
  · exact ⟨-1, s', ptrs, xs, hpush, hok, .inr ⟨hrefused.imp_left And.left, rfl, rfl⟩⟩

theorem listInsert_ok (h : ListOk s ptrs xs) (grants : Grants) (index : Nat) (value : β)
    (hsmall : s.list.count < 2 ^ 31) :
    ∃ c s' ptrs' xs', listInsert s index value grants = some (c, s') ∧ ListOk s' ptrs' xs' ∧
      Outcome grants xs (.insert index value) (.status c) xs' := by
  unfold listInsert
  by_cases hindex : index > s.list.count
  · rw [if_pos hindex]
    rw [h.count_eq] at hindex
    exact ⟨-1, s, ptrs, xs, rfl, h, .inr ⟨.inl hindex, rfl, rfl⟩⟩
  · rw [if_neg hindex]
    have hle : index ≤ xs.length := by rw [← h.count_eq]; omega
    rcases listEnsureCapacity_ok h grants.growth hsmall with ⟨l, hgrowth, hl, hroom, hcount⟩ | ⟨hgrowth, hrefused⟩
    · rw [hgrowth]
      dsimp only
      rw [if_neg (by decide)]
      cases hitem : grants.item with
      | false => exact ⟨-1, _, ptrs, xs, rfl, hl, .inr ⟨.inr (.inr hitem), rfl, rfl⟩⟩
      | true =>
          have hlcount := hl.count
          have hlcapacity := hl.capacity
          dsimp only at hlcount hlcapacity
          have hptrs : index ≤ ptrs.length := by rwa [h.stored.length_eq]
          -- the gap goes from the end of the list to the place of the new item
          have hgap : Gap l.items ptrs 1 [] := hl.held.gap_end (by dsimp only; omega)
          obtain ⟨items, hshift, hmoved, hlength⟩ := shiftUp_ok hgap hptrs
          have hloop : shiftUp 1 (index + 1) ptrs.length l.items = some items := hshift
          obtain ⟨items', hput, hfilled⟩ := hmoved.put s.heap.next
          have hheld := hfilled.holds
          rw [List.append_nil, List.append_assoc] at hheld
          rw [List.length_take_of_le hptrs] at hput
          have hl' : ListOk ⟨l, s.heap⟩ (ptrs.take index ++ ptrs.drop index) (xs.take index ++ xs.drop index) := by
            simpa only [List.take_append_drop] using hl
          have hparts : (ptrs.take index).length = (xs.take index).length := by
            rw [List.length_take_of_le hptrs, List.length_take_of_le hle]
          have hgrown := hl'.grown hheld ((length_put hput).trans hlength) hparts (by omega) value
          refine ⟨0, _, _, _, ?_, hgrown, .inl ⟨hle, rfl, (insertIdx_eq hle).symm⟩⟩
          rw [hlcount]
          dsimp only [Option.bind_eq_bind]
          rw [if_neg (by decide), hloop, Option.bind_some, hput]
          rfl
    · rw [hgrowth]
      exact ⟨-1, _, ptrs, xs, rfl, h, .inr ⟨.inr (.inl hrefused.1), rfl, rfl⟩⟩

theorem listPop_ok (h : ListOk s ptrs xs) :
    ∃ p s' ptrs', listPop s = some (p, s') ∧ deref s'.heap p = some xs.getLast? ∧ ListOk s' ptrs' xs.dropLast := by
  unfold listPop
  rw [h.count_eq]
  by_cases hempty : xs.length = 0
  · rw [if_pos hempty]
    obtain rfl := List.eq_nil_of_length_eq_zero hempty
    exact ⟨none, s, ptrs, rfl, rfl, h⟩
  · rw [if_neg hempty]
    have hlast : xs.length - 1 < xs.length := by omega
    obtain ⟨p, -, hfetch, hp⟩ := h.item hlast
    rw [hfetch]
    refine ⟨some p, _, ptrs.dropLast, rfl, ?_, ?_⟩
    · rw [deref, hp, Option.map_some, List.getLast?_eq_getElem?, List.getElem?_eq_getElem (by omega)]
    · refine ⟨?_, ?_, h.capacity, ?_, ?_⟩
      · rw [List.dropLast_eq_take]
        exact h.held.take _
      · rw [List.length_dropLast, h.stored.length_eq]
      · exact h.nodup.sublist (List.dropLast_sublist ptrs)
      · rw [Heap.Stores, List.map_dropLast, List.map_dropLast, h.stored]

theorem listGet_ok (h : ListOk s ptrs xs) (index : Nat) :
    ∃ p, listGet s index = some p ∧ deref s.heap p = some xs[index]? := by
  unfold listGet
  rw [h.count_eq]
  by_cases hindex : index ≥ xs.length
  · rw [if_pos hindex, List.getElem?_eq_none hindex]
    exact ⟨none, rfl, rfl⟩
  · obtain ⟨p, -, hfetch, hp⟩ := h.item (not_le.mp hindex)
    rw [if_neg hindex, hfetch, List.getElem?_eq_getElem (not_le.mp hindex)]
    exact ⟨some p, rfl, by rw [deref, hp, Option.map_some]⟩

theorem listSet_ok (h : ListOk s ptrs xs) (grants : Grants) (index : Nat) (value : β) :
    ∃ c s' ptrs' xs', listSet s index value = some (c, s') ∧ ListOk s' ptrs' xs' ∧
      Outcome grants xs (.set index value) (.status c) xs' := by
  unfold listSet
  rw [h.count_eq]
  by_cases hindex : index ≥ xs.length
  · rw [if_pos hindex]
    exact ⟨-1, s, ptrs, xs, rfl, h, .inr ⟨hindex, rfl, rfl⟩⟩
  · have hlt : index < xs.length := not_le.mp hindex
    have hptrs : index < ptrs.length := by rwa [h.stored.length_eq]
    rw [if_neg hindex, h.held.fetch hptrs]
    dsimp only [Option.bind_eq_bind, Option.bind_some]
    rw [h.stored.getElem hptrs hlt]
    exact ⟨0, _, ptrs, xs.set index value, rfl,
      ⟨h.held, h.count, h.capacity, h.nodup, h.stored.store h.nodup hptrs value⟩, .inl ⟨hlt, rfl, rfl⟩⟩

theorem listRemove_ok (h : ListOk s ptrs xs) (grants : Grants) (index : Nat) :
    ∃ c s' ptrs' xs', listRemove s index = some (c, s') ∧ ListOk s' ptrs' xs' ∧
      Outcome grants xs (.remove index) (.status c) xs' := by
  unfold listRemove
  rw [h.count_eq]
  by_cases hindex : index ≥ xs.length
  · rw [if_pos hindex]
    exact ⟨-1, s, ptrs, xs, rfl, h, .inr ⟨hindex, rfl, rfl⟩⟩
  · have hlt : index < xs.length := not_le.mp hindex
    have hptrs : index < ptrs.length := by rwa [h.stored.length_eq]
    have hsplit : ptrs = ptrs.take index ++ [ptrs[index]] ++ ptrs.drop (index + 1) := by simp
    have hgap : Gap s.list.items (ptrs.take index) 1 (ptrs.drop (index + 1)) := Holds.gap (hsplit ▸ h.held)
    obtain ⟨items, hloop, hmoved, hlength⟩ := shiftDown_ok hgap
    have hleft : (ptrs.drop (index + 1)).length = xs.length - 1 - index := by
      rw [List.length_drop, h.stored.length_eq]
      omega
    rw [List.length_take_of_le hptrs.le, hleft] at hloop
    rw [← List.eraseIdx_eq_take_drop_succ] at hmoved
    have herased : (ptrs.eraseIdx index).Nodup := h.nodup.sublist (List.eraseIdx_sublist ptrs index)
    refine ⟨0, ⟨{ s.list with items, count := xs.length - 1 }, s.heap.free ptrs[index]⟩, ptrs.eraseIdx index,
      xs.eraseIdx index, ?_, ⟨hmoved.left, ?_, hlength.trans h.capacity, herased, ?_⟩, .inl ⟨hlt, rfl, rfl⟩⟩
    · rw [if_neg hindex, h.held.fetch hptrs]
      dsimp only [Option.bind_eq_bind, Option.bind_some]
      rw [freeItem, h.stored.getElem hptrs hlt, Option.map_some, Option.bind_some, hloop]
      rfl
    · rw [List.length_eraseIdx_of_lt hptrs, h.stored.length_eq]
    · have hstored : s.heap.Stores (ptrs.eraseIdx index) (xs.eraseIdx index) := by
        rw [Heap.Stores, ← List.eraseIdx_map, ← List.eraseIdx_map, h.stored]
      exact hstored.free (notMem_eraseIdx h.nodup hptrs)

theorem listFree_ok (h : ListOk s ptrs xs) :
    ∃ heap, freeItems s.list.items s.list.count 0 s.heap = some heap := by
  rw [h.count]
  exact freeItems_ok (p := []) h.held h.nodup h.stored

theorem listClear_ok (h : ListOk s ptrs xs) : ∃ s', listClear s = some s' ∧ ListOk s' [] [] := by
  obtain ⟨heap, hloop⟩ := listFree_ok h
  rw [listClear, hloop]
  exact ⟨_, rfl, holds_nil _, rfl, h.capacity, List.nodup_nil, rfl⟩

theorem listDeinit_ok (h : ListOk s ptrs xs) : ∃ s', listDeinit s = some s' ∧ ListOk s' [] [] := by
  unfold listDeinit
  split_ifs
  · obtain ⟨heap, hloop⟩ := listFree_ok h
    rw [hloop]
    exact ⟨_, rfl, listInit_ok heap⟩
  · exact ⟨_, rfl, listInit_ok s.heap⟩

theorem rotateLeftLoops_ok {a b : List Nat} (h : ListOk s (a ++ b) xs) (hpos : 0 < a.length) :
    ∃ items, rotateLeftLoops s.list a.length = some items ∧ items.length = s.list.items.length ∧
      Holds items (b ++ a) := by
  obtain ⟨w, hw⟩ := Nat.exists_eq_add_one.mpr hpos
  have hrest : s.list.count - a.length = b.length := by
    rw [h.count, List.length_append]
    omega
  obtain ⟨temp, hsave, hsaved, -⟩ := copyItems_ok (a := []) (p := []) (i := 0) h.held.left (by rfl)
    ((holds_nil (alloc a.length)).gap_end (by simp)) (by rfl)
  rw [List.nil_append, List.append_nil] at hsaved
  have hgap : Gap s.list.items [] a.length b := Holds.gap (by simpa using h.held)
  rw [hw] at hgap
  obtain ⟨items, hshift, hmoved, hlength⟩ := shiftDown_ok hgap
  rw [← hw] at hshift hmoved
  obtain ⟨items', hrestore, hheld, hlength'⟩ := copyItems_ok (a := []) (i := 0) hsaved (by rfl) hmoved (by rfl)
  refine ⟨items', ?_, hlength'.trans hlength, by simpa using hheld⟩
  rw [rotateLeftLoops, hrest]
  dsimp only [Option.bind_eq_bind]
  rw [hsave, Option.bind_some]
  exact (congrArg (Option.bind · _) hshift).trans hrestore

theorem rotateRightLoops_ok {a b : List Nat} (h : ListOk s (a ++ b) xs) (hpos : 0 < b.length) :
    ∃ items, rotateRightLoops s.list b.length = some items ∧ items.length = s.list.items.length ∧
      Holds items (b ++ a) := by
  obtain ⟨w, hw⟩ := Nat.exists_eq_add_one.mpr hpos
  have hrest : s.list.count - b.length = a.length := by
    rw [h.count, List.length_append]
    omega
  have hlast : s.list.count - 1 = a.length + w := by
    rw [h.count, List.length_append]
    omega
  obtain ⟨temp, hsave, hsaved, -⟩ := copyItems_ok (p := []) (i := 0) h.held (by rfl)
    ((holds_nil (alloc b.length)).gap_end (by simp)) (by rfl)
  rw [List.nil_append, List.append_nil] at hsaved
  have hgap : Gap s.list.items a b.length [] := Holds.gap (by simpa using h.held)
  rw [hw] at hgap
  obtain ⟨items, hshift, hmoved, hlength⟩ := shiftUp_ok hgap (Nat.zero_le _)
  rw [Nat.zero_add, ← hw] at hshift
  rw [← hw] at hmoved
  obtain ⟨items', hrestore, hheld, hlength'⟩ := copyItems_ok (a := []) (i := 0) hsaved (by rfl) hmoved (by rfl)
  refine ⟨items', ?_, hlength'.trans hlength, by simpa using hheld⟩
  rw [rotateRightLoops, hrest, hlast]
  dsimp only [Option.bind_eq_bind]
  rw [hsave, Option.bind_some, hshift]
  exact hrestore

/-- A rotation, from what it makes of the pointers and of the elements. -/
theorem rotate_ok (h : ListOk s ptrs xs) {loops : ListBase → Nat → Option (List (Option Nat))} {xs' : List β}
    (granted : Bool) (ptrs' : List Nat) (hzero : xs.length = 0 ∨ n % xs.length = 0 → xs' = xs)
    (hperm : ptrs'.Perm ptrs) (hstored : s.heap.Stores ptrs' xs')
    (hloops : 0 < n % ptrs.length → n % ptrs.length < ptrs.length →
      ∃ items, loops s.list (n % ptrs.length) = some items ∧ items.length = s.list.items.length ∧ Holds items ptrs') :
    ∃ c s' ptrs'' xs'', ListModel.rotate loops s n granted = some (c, s') ∧ ListOk s' ptrs'' xs'' ∧
      ((Answer.status c = (.status 0 : Answer β) ∧ xs'' = xs') ∨
        granted = false ∧ Answer.status c = (.status (-1) : Answer β) ∧ xs'' = xs) := by
  unfold ListModel.rotate
  rw [h.count]
  rw [← h.stored.length_eq] at hzero
  split_ifs with hnone hmod hgranted
  · refine ⟨0, s, ptrs, xs, rfl, h, .inl ⟨rfl, (hzero ?_).symm⟩⟩
    rcases hnone with hcount | rfl
    · exact .inl hcount
    · exact .inr (Nat.zero_mod _)
  · exact ⟨0, s, ptrs, xs, rfl, h, .inl ⟨rfl, (hzero (.inr hmod)).symm⟩⟩
  · exact ⟨-1, s, ptrs, xs, rfl, h, .inr ⟨by simpa using hgranted, rfl, rfl⟩⟩
  · obtain ⟨items, hitems, hsame, hheld⟩ := hloops (Nat.pos_of_ne_zero hmod) (Nat.mod_lt _ (by omega))
    rw [hitems]
    refine ⟨0, _, ptrs', xs', rfl, ⟨hheld, ?_, hsame.trans h.capacity, hperm.nodup_iff.mpr h.nodup, hstored⟩,
      .inl ⟨rfl, rfl⟩⟩
    exact h.count.trans hperm.length_eq.symm

theorem listRotateLeft_ok (h : ListOk s ptrs xs) (grants : Grants) (n : Nat) :
    ∃ c s' ptrs' xs', listRotateLeft s n grants.temp = some (c, s') ∧ ListOk s' ptrs' xs' ∧
      Outcome grants xs (.rotateLeft n) (.status c) xs' := by
  apply rotate_ok h grants.temp (ptrs.rotate n)
  · exact rotate_of_mod
  · exact List.rotate_perm ptrs n
  · rw [Heap.Stores, List.map_rotate, List.map_rotate, h.stored]
  · intro hpos hlt
    have hlength := List.length_take_of_le hlt.le
    have hparts := h
    rw [← List.take_append_drop (n % ptrs.length) ptrs] at hparts
    rw [List.rotate_eq_drop_append_take_mod]
    simpa only [hlength] using rotateLeftLoops_ok hparts (by rwa [hlength])

theorem listRotateRight_ok (h : ListOk s ptrs xs) (grants : Grants) (n : Nat) :
    ∃ c s' ptrs' xs', listRotateRight s n grants.temp = some (c, s') ∧ ListOk s' ptrs' xs' ∧
      Outcome grants xs (.rotateRight n) (.status c) xs' := by
  apply rotate_ok h grants.temp (ptrs.reverse.rotate n).reverse
  · exact reverse_rotate_of_mod
  · exact (List.reverse_perm _).trans ((List.rotate_perm _ n).trans (List.reverse_perm ptrs))
  · rw [Heap.Stores, List.map_reverse, List.map_rotate, List.map_reverse, h.stored, List.map_reverse, List.map_rotate,
      List.map_reverse]
  · intro hpos hlt
    have hlength : (ptrs.drop (ptrs.length - n % ptrs.length)).length = n % ptrs.length := by
      rw [List.length_drop]
      omega
    have hparts := h
    rw [← List.take_append_drop (ptrs.length - n % ptrs.length) ptrs] at hparts
    rw [reverse_rotate_eq]
    simpa only [hlength] using rotateRightLoops_ok hparts (by rwa [hlength])

end Lists

section Runs

variable {s s' : State β} {ptrs : List Nat} {xs : List β} {op : Op β} {grants : Grants}

def StepOk (xs : List β) (op : Op β) (grants : Grants) (result : Option (Answer β × State β)) : Prop :=
  ∃ answer s' ptrs' xs', result = some (answer, s') ∧ ListOk s' ptrs' xs' ∧ Outcome grants xs op answer xs'

theorem StepOk.status {result : Option (Int × State β)}
    (h : ∃ c s' ptrs' xs', result = some (c, s') ∧ ListOk s' ptrs' xs' ∧ Outcome grants xs op (.status c) xs') :
    StepOk xs op grants (result.map fun r => (.status r.1, r.2)) := by
  obtain ⟨c, s', ptrs', xs', rfl, hok, houtcome⟩ := h
  exact ⟨.status c, s', ptrs', xs', rfl, hok, houtcome⟩

theorem ListOk.exec (h : ListOk s ptrs xs) (op : Op β) (grants : Grants) (hsmall : s.list.count < 2 ^ 31) :
    StepOk xs op grants (exec s grants op) := by
  cases op with
  | push value => exact StepOk.status (listPush_ok h grants value hsmall)
  | pop =>
      obtain ⟨p, s', ptrs', hcall, hderef, hok⟩ := listPop_ok h
      refine ⟨.item xs.getLast?, s', ptrs', xs.dropLast, ?_, hok, rfl, rfl⟩
      rw [ListModel.exec, hcall]
      dsimp only [Option.bind_eq_bind, Option.bind_some]
      rw [hderef]
      rfl
  | get index =>
      obtain ⟨p, hcall, hderef⟩ := listGet_ok h index
      refine ⟨.item xs[index]?, s, ptrs, xs, ?_, h, rfl, rfl⟩
      rw [ListModel.exec, hcall]
      dsimp only [Option.bind_eq_bind, Option.bind_some]
      rw [hderef]
      rfl
  | set index value => exact StepOk.status (listSet_ok h grants index value)
  | insert index value => exact StepOk.status (listInsert_ok h grants index value hsmall)
  | remove index => exact StepOk.status (listRemove_ok h grants index)
  | clear =>
      obtain ⟨s', hcall, hok⟩ := listClear_ok h
      rw [ListModel.exec, hcall]
      exact ⟨.done, s', [], [], rfl, hok, rfl, rfl⟩
  | rotateLeft n => exact StepOk.status (listRotateLeft_ok h grants n)
  | rotateRight n => exact StepOk.status (listRotateRight_ok h grants n)

theorem Outcome.unchanged {answer : Answer β} {xs' : List β} (h : Outcome grants xs op answer xs')
    (hfail : answer = .status (-1) ∨ answer = .item none) : xs' = xs := by
  cases op with
  | pop =>
      obtain ⟨rfl, rfl⟩ := h
      have hempty : xs = [] := by simpa using hfail
      rw [hempty, List.dropLast_nil]
  | get index => exact h.2
  | clear =>
      obtain ⟨rfl, -⟩ := h
      simp at hfail
  | push value | set index value | insert index value | remove index | rotateLeft n | rotateRight n =>
      simp only [Outcome] at h
      aesop

theorem Outcome.length_le {answer : Answer β} {xs' : List β} (h : Outcome grants xs op answer xs') :
    xs'.length ≤ xs.length + 1 := by
  cases op <;> simp only [Outcome] at h <;> grind [List.length_rotate]

theorem drive_invalid (s : State β) (k n : Nat) : drive s n ⟨k, false⟩ = some (List.replicate n none) := by
  induction n with
  | zero => rfl
  | succ n ih =>
      have hnext : listNext s.list ⟨k, false⟩ = some (none, ⟨k, false⟩) := rfl
      rw [drive, hnext]
      dsimp only [Option.bind_eq_bind, Option.bind_some, deref]
      rw [ih, Option.bind_some, List.replicate_succ]

theorem ListOk.drive (h : ListOk s ptrs xs) (hsmall : s.list.count ≤ 2 ^ 31) (n k : Nat) :
    drive s n ⟨k, true⟩ = some ((List.range n).map fun i => xs[k + i]?) := by
  induction n generalizing k with
  | zero => rfl
  | succ n ih =>
      rw [List.range_succ_eq_map, List.map_cons, List.map_map, ListModel.drive, listNext, h.count_eq]
      by_cases hend : k ≥ xs.length
      · have hnone : ((fun i => xs[k + i]?) ∘ Nat.succ) = fun _ => none := by
          funext i
          exact List.getElem?_eq_none (by simp only [Nat.succ_eq_add_one]; omega)
        rw [if_pos (.inr hend), hnone]
        dsimp only [Option.bind_eq_bind, Option.bind_some, deref, Nat.add_zero]
        rw [drive_invalid, Option.bind_some, List.getElem?_eq_none hend, List.map_const', List.length_range]
      · obtain ⟨p, -, hfetch, hp⟩ := h.item (not_le.mp hend)
        have hcount := h.count_eq
        rw [if_neg (by simpa using hend), hfetch]
        dsimp only [Option.bind_eq_bind, Option.bind_some, Option.map_some, deref, Nat.add_zero]
        rw [hp, Option.map_some, Option.bind_some, Nat.mod_eq_of_lt (by omega), ih, Option.bind_some,
          List.getElem?_eq_getElem (not_le.mp hend)]
        simp only [Function.comp_def, Nat.succ_eq_add_one, Nat.add_assoc, Nat.add_comm 1]

/-- The list has fewer than 2³¹ elements. -/
def Small (s : State β) (_ : List (Event β)) : Prop := s.list.count < 2 ^ 31

instance (s : State β) (events : List (Event β)) : Decidable (Small s events) :=
  inferInstanceAs (Decidable (s.list.count < 2 ^ 31))

theorem ListOk.step {events : List (Event β)} (h : Step s events s') (hok : ListOk s ptrs xs)
    (hsmall : s.list.count < 2 ^ 31) :
    s'.list.count ≤ 2 ^ 31 ∧ ∃ ptrs' xs', ListOk s' ptrs' xs' ∧ SequenceStep xs events xs' := by
  obtain ⟨op, grants, answer, s', hexec⟩ := h
  obtain ⟨answer', s'', ptrs', xs', hexec', hok', houtcome⟩ := hok.exec op grants hsmall
  rw [hexec] at hexec'
  cases hexec'
  have hlength := houtcome.length_le
  rw [← hok.count_eq, ← hok'.count_eq] at hlength
  exact ⟨by omega, ptrs', xs', hok', .call op grants answer xs' houtcome⟩

end Runs

/-- In every run the elements of the list are those of a sequence, and the calls
answer as on a sequence; every further call returns without an access outside of
an array or to an item that is not there, and one that answers -1 or NULL leaves
the elements unchanged; and an iterator goes over them once, in order. -/
theorem list_refines {trace : List (Event β)} {s : State β}
    (hrun : Run (guarded Small Step) ⟨listInit, Heap.empty β⟩ trace s) :
    Run SequenceStep [] trace (contents s) ∧
      (s.list.count < 2 ^ 31 → ∀ op grants, ∃ answer s', exec s grants op = some (answer, s') ∧
        (answer = .status (-1) ∨ answer = .item none → contents s' = contents s)) ∧
      ∀ n, drive s n listIter = some ((List.range n).map fun i => (contents s)[i]?) := by
  obtain ⟨ptrs, xs, hsequence, hok, hcount⟩ : ∃ ptrs xs, Run SequenceStep [] trace xs ∧ ListOk s ptrs xs ∧
      s.list.count ≤ 2 ^ 31 := by
    apply hrun.invariant (P := fun trace s => ∃ ptrs xs, Run SequenceStep [] trace xs ∧ ListOk s ptrs xs ∧
      s.list.count ≤ 2 ^ 31)
    · exact ⟨[], [], .start, listInit_ok _, Nat.zero_le _⟩
    · rintro trace s events s' ⟨ptrs, xs, hsequence, hok, -⟩ ⟨hstep, hsmall⟩
      obtain ⟨hcount, ptrs', xs', hok', hnext⟩ := ListOk.step hstep hok hsmall
      exact ⟨ptrs', xs', hsequence.next hnext, hok', hcount⟩
  rw [hok.contents_eq]
  refine ⟨hsequence, ?_, ?_⟩
  · intro hsmall op grants
    obtain ⟨answer, s', ptrs', xs', hexec, hok', houtcome⟩ := hok.exec op grants hsmall
    refine ⟨answer, s', hexec, fun hfail => ?_⟩
    rw [hok'.contents_eq, houtcome.unchanged hfail]
  · intro n
    have hdrive := hok.drive hcount n 0
    simp only [Nat.zero_add] at hdrive
    exact hdrive

/-- Three elements are pushed, a fourth one is inserted before them, the list is
rotated to the right, and a growth is refused. -/
theorem inserted_then_rotated : ∃ trace, ∃ s : State Nat,
    Run (guarded Small Step) ⟨listInit, Heap.empty Nat⟩ trace s ∧ contents s = [3, 0, 1, 2] ∧
      Run SequenceStep [] trace (contents s) := by
  let all : Grants := ⟨true, true, true⟩
  have r₁ : Run (guarded Small Step) ⟨listInit, Heap.empty Nat⟩ _ _ :=
    .next .start ⟨.exec (.push 1) all _ _ rfl, by decide⟩
  have r₂ := r₁.next ⟨.exec (.push 2) all _ _ rfl, by decide⟩
  have r₃ := r₂.next ⟨.exec (.push 3) all _ _ rfl, by decide⟩
  have r₄ := r₃.next ⟨.exec (.insert 0 0) all _ _ rfl, by decide⟩
  have r₅ := r₄.next ⟨.exec (.rotateRight 5) all _ _ rfl, by decide⟩
  have r₆ := r₅.next ⟨.exec (.push 4) ⟨true, false, true⟩ _ _ rfl, by decide⟩
  exact ⟨_, _, r₆, by decide, (list_refines r₆).1⟩

end Ak24.ListRefinement
