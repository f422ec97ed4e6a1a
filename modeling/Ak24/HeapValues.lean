import Ak24.Objects

namespace Ak24.HeapValues

open Objects

variable {ν τ : Type}

structure Reading (ν τ : Type) where
  read : (Nat → Option τ) → ν → Option τ
  mono : ∀ {f g : Nat → Option τ}, (∀ n t, f n = some t → g n = some t) →
    ∀ {node t}, read f node = some t → read g node = some t

/-- The value at a node, which is at most so deep. -/
def value (r : Reading ν τ) (cells : Nat → Option ν) : Nat → Nat → Option τ
  | 0, _ => none
  | depth + 1, n => (cells n).bind (r.read (value r cells depth))

def above (first : Nat) (cells : Nat → Option ν) (n : Nat) : Option ν := if first ≤ n then cells n else none

def Extends (cells cells' : Nat → Option ν) : Prop := ∀ n node, cells n = some node → cells' n = some node

section Values

variable {r : Reading ν τ} {cells cells' : Nat → Option ν} {depth depth' n : Nat} {t : τ}

theorem value_mono (hcells : Extends cells cells') (hdepth : depth ≤ depth') (h : value r cells depth n = some t) :
    value r cells' depth' n = some t := by
  induction depth generalizing depth' n t with
  | zero => cases h
  | succ depth ih =>
      obtain ⟨depth', rfl⟩ := Nat.exists_eq_add_of_le' hdepth
      rw [value, Option.bind_eq_some_iff] at h
      obtain ⟨node, hnode, hread⟩ := h
      rw [Nat.add_succ, value, hcells n node hnode, Option.bind_some]
      exact r.mono (fun m s hm => ih (by omega) hm) hread

theorem above_extends (first : Nat) (cells : Nat → Option ν) : Extends (above first cells) cells := by
  intro n node h
  rw [above] at h
  split at h
  · exact h
  · cases h

theorem above_mono {first first' : Nat} (hfirst : first' ≤ first)
    (hcells : ∀ n, first ≤ n → ∀ node, cells n = some node → cells' n = some node) :
    Extends (above first cells) (above first' cells') := by
  intro n node h
  rw [above] at h ⊢
  split at h
  · rename_i hn
    rw [if_pos (hfirst.trans hn)]
    exact hcells n hn node h
  · cases h

theorem mapM_eq_some_iff {α β : Type} {f : α → Option β} {l : List α} {r : List β} :
    l.mapM f = some r ↔ List.Forall₂ (fun a b => f a = some b) l r := by
  induction l generalizing r with
  | nil => simp [eq_comm]
  | cons a l ih =>
      simp only [List.mapM_cons, Option.bind_eq_bind, Option.bind_eq_some_iff, Option.pure_def, Option.some.injEq,
        List.forall₂_cons_left_iff, ih]
      constructor
      · rintro ⟨b, hb, r, hr, rfl⟩
        exact ⟨b, r, hb, hr, rfl⟩
      · rintro ⟨b, r, hb, hr, rfl⟩
        exact ⟨b, hb, r, hr, rfl⟩

end Values

/-- Allocations, and changes to what was allocated after `h`. -/
structure Grows (h h' : Heap ν) : Prop where
  next : h.next ≤ h'.next
  cells : ∀ n < h.next, h'.cells n = h.cells n

section Grows

variable {h h' h'' : Heap ν} {node : ν}

theorem Grows.refl (h : Heap ν) : Grows h h := ⟨le_rfl, fun _ _ => rfl⟩

theorem Grows.trans (hg : Grows h h') (hg' : Grows h' h'') : Grows h h'' :=
  ⟨hg.next.trans hg'.next, fun n hn => (hg'.cells n (hn.trans_le hg.next)).trans (hg.cells n hn)⟩

theorem Grows.alloc (h : Heap ν) (node : ν) : Grows h (h.alloc node) :=
  ⟨Nat.le_succ _, fun _ hn => Heap.alloc_of_ne hn.ne⟩

theorem Grows.store (hg : Grows h h') {n : Nat} (hn : h.next ≤ n) (node : ν) : Grows h (h'.store n node) :=
  ⟨hg.next, fun m hm => (Heap.store_of_ne (hm.trans_le hn).ne).trans (hg.cells m hm)⟩

theorem Grows.extends (hg : Grows h h') : Extends h.cells h'.cells :=
  fun n _ hn => (hg.cells n (h.lt_next hn)).trans hn

theorem Grows.above (hg : Grows h h') (first : Nat) :
    Extends (HeapValues.above first h.cells) (HeapValues.above first h'.cells) :=
  above_mono le_rfl fun n _ node hn => hg.extends n node hn

end Grows

end Ak24.HeapValues
