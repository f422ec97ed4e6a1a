import Ak24.NeighborLists
import Ak24.Objects
import Ak24.Transition

namespace Ak24.AtomBond

open NeighborLists Objects Transition

variable {α ι : Type} [DecidableEq α] [DecidableEq ι]

structure Neighbor (α : Type) where
  atom : α
  next : Option Nat
  deriving DecidableEq, Repr

/-- Where an `ak_atom_bond` is: an atomic load or store of a `neighbors` pointer
is a step, with the pointer that was loaded kept for the store. -/
inductive BondPhase (α : Type)
  | idle
  | alloc (atom₁ atom₂ : α)
  | load₁ (atom₁ atom₂ : α)
  | store₁ (atom₁ atom₂ : α) (old : Option Nat)
  | load₂ (atom₁ atom₂ : α)
  | store₂ (atom₁ atom₂ : α) (old : Option Nat)
  | done (atom₁ atom₂ : α)
  deriving DecidableEq, Repr

inductive Event (α : Type)
  | refused
  | stored (atom : α) (old : Option Nat)
  | bonded (atom₁ atom₂ : α)
  deriving DecidableEq, Repr

/-- The atoms' neighbour lists and the calls of the threads. A node is numbered
when it is stored; until then the call that fills it has it to itself. -/
structure System (α ι : Type) where
  neighbors : α → Option Nat
  nodes : Heap (Neighbor α)
  calls : ι → BondPhase α

def storeNeighbor (s : System α ι) (atom other : α) (old : Option Nat) : System α ι :=
  { s with
    neighbors := Function.update s.neighbors atom (some s.nodes.next)
    nodes := s.nodes.alloc ⟨other, old⟩ }

/-- One step of `ak_atom_bond`; `granted` says whether both nodes are allocated. -/
def akAtomBond (s : System α ι) (granted : Bool) : BondPhase α → Option (BondPhase α × System α ι × List (Event α))
  | .idle => none
  | .alloc atom₁ atom₂ => if granted then some (.load₁ atom₁ atom₂, s, []) else some (.idle, s, [.refused])
  | .load₁ atom₁ atom₂ => some (.store₁ atom₁ atom₂ (s.neighbors atom₁), s, [])
  | .store₁ atom₁ atom₂ old => some (.load₂ atom₁ atom₂, storeNeighbor s atom₁ atom₂ old, [.stored atom₁ old])
  | .load₂ atom₁ atom₂ => some (.store₂ atom₁ atom₂ (s.neighbors atom₂), s, [])
  | .store₂ atom₁ atom₂ old => some (.done atom₁ atom₂, storeNeighbor s atom₂ atom₁ old, [.stored atom₂ old])
  | .done atom₁ atom₂ => some (.idle, s, [.bonded atom₁ atom₂])

inductive Step : System α ι → List (Event α) → System α ι → Prop
  | begin (s : System α ι) (i : ι) (atom₁ atom₂ : α) (hidle : s.calls i = .idle) :
    Step s [] { s with calls := Function.update s.calls i (.alloc atom₁ atom₂) }
  | call (s s' : System α ι) (i : ι) (granted : Bool) (p : BondPhase α) (events : List (Event α))
    (h : akAtomBond s granted (s.calls i) = some (p, s', events)) :
    Step s events { s' with calls := Function.update s.calls i p }

def System.start (α ι : Type) : System α ι := ⟨fun _ => none, .empty _, fun _ => .idle⟩

def Lists (nodes : Heap (Neighbor α)) : Option Nat → List α → Prop
  | p, [] => p = none
  | p, b :: bs => ∃ n next, p = some n ∧ nodes.cells n = some ⟨b, next⟩ ∧ Lists nodes next bs

/-- A list is stored only over the one that was loaded. -/
def StoresOverLoaded (s : System α ι) (events : List (Event α)) : Prop :=
  ∀ a old, .stored a old ∈ events → s.neighbors a = old

section Links

omit [DecidableEq α]

variable {nodes : Heap (Neighbor α)} {p : Option Nat} {l l' : List α}

theorem Lists.unique (h : Lists nodes p l) (h' : Lists nodes p l') : l = l' := by
  induction l generalizing p l' with
  | nil =>
      cases l' with
      | nil => rfl
      | cons b bs =>
          obtain ⟨n, next, hp, -⟩ := h'
          cases h.symm.trans hp
  | cons a as ih =>
      obtain ⟨n, next, rfl, hn, has⟩ := h
      cases l' with
      | nil => cases h'
      | cons b bs =>
          obtain ⟨n', next', hp, hn', hbs⟩ := h'
          cases hp
          rw [hn] at hn'
          cases hn'
          rw [ih has hbs]

theorem Lists.alloc (h : Lists nodes p l) (node : Neighbor α) : Lists (nodes.alloc node) p l := by
  induction l generalizing p with
  | nil => exact h
  | cons a as ih =>
      obtain ⟨n, next, rfl, hn, has⟩ := h
      exact ⟨n, next, rfl, Heap.alloc_old hn, ih has⟩

theorem Lists.push (h : Lists nodes p l) (a : α) : Lists (nodes.alloc ⟨a, p⟩) (some nodes.next) (a :: l) :=
  ⟨nodes.next, p, rfl, Heap.alloc_self _ _, h.alloc _⟩

end Links

def pending (a b : α) : BondPhase α → Nat
  | .load₂ x y | .store₂ x y _ => if x = a ∧ y = b then 1 else 0
  | .done x y => (if x = a ∧ y = b then 1 else 0) + if x = b ∧ y = a then 1 else 0
  | _ => 0

theorem count_bonded (x y a b : α) (trace : List (Event α)) :
    (trace ++ [Event.bonded x y]).count (Event.bonded a b) =
      trace.count (Event.bonded a b) + if x = a ∧ y = b then 1 else 0 := by
  simp [List.count_append, List.count_singleton]

omit [DecidableEq ι] in
theorem linked_store {s : System α ι} {lists : α → List α} (h : ∀ a, Lists s.nodes (s.neighbors a) (lists a))
    (x y a : α) :
    Lists (storeNeighbor s x y (s.neighbors x)).nodes ((storeNeighbor s x y (s.neighbors x)).neighbors a)
      (Function.update lists x (y :: lists x) a) := by
  by_cases ha : a = x
  · subst a
    simp only [storeNeighbor, Function.update_self]
    exact (h x).push y
  · simp only [storeNeighbor, Function.update_of_ne ha]
    exact (h a).alloc _

variable [Fintype ι]

structure BondsOk (trace : List (Event α)) (s : System α ι) (lists : α → List α) : Prop where
  linked : ∀ a, Lists s.nodes (s.neighbors a) (lists a)
  counted : ∀ a b, (lists a).count b =
    trace.count (.bonded a b) + trace.count (.bonded b a) + tally (pending a b) s.calls

omit [DecidableEq ι] in
theorem pending_idle {s : System α ι} (hidle : ∀ i, s.calls i = .idle) (a b : α) :
    tally (pending a b) s.calls = 0 := by
  apply tally_eq_zero
  intro i
  rw [hidle i]
  rfl

section Steps

variable {trace events : List (Event α)} {s : System α ι} {lists : α → List α} {i : ι} {p : BondPhase α}

theorem BondsOk.keep (h : BondsOk trace s lists) (hevents : ∀ a b, .bonded a b ∉ events)
    (hpending : ∀ a b, pending a b p = pending a b (s.calls i)) :
    BondsOk (trace ++ events) { s with calls := Function.update s.calls i p } lists := by
  refine ⟨h.linked, fun a b => ?_⟩
  have hcalls := tally_update (pending a b) s.calls i p
  have hcounted := h.counted a b
  have hp := hpending a b
  rw [List.count_append, List.count_append, List.count_eq_zero_of_not_mem (hevents a b),
    List.count_eq_zero_of_not_mem (hevents b a)]
  dsimp only
  omega

theorem BondsOk.store (h : BondsOk trace s lists) {x y : α} {old : Option Nat} (hold : s.neighbors x = old)
    (hpending : ∀ a b, pending a b p = pending a b (s.calls i) + if x = a ∧ y = b then 1 else 0) :
    BondsOk (trace ++ [.stored x old]) { storeNeighbor s x y old with calls := Function.update s.calls i p }
      (Function.update lists x (y :: lists x)) := by
  subst old
  refine ⟨linked_store h.linked x y, fun a b => ?_⟩
  have hcalls := tally_update (pending a b) s.calls i p
  have hcounted := h.counted a b
  have hp := hpending a b
  rw [count_update_cons, List.count_append, List.count_append]
  simp only [List.count_singleton, reduceCtorEq, beq_iff_eq, if_false]
  omega

theorem BondsOk.bonded (h : BondsOk trace s lists) {x y : α} (hi : s.calls i = .done x y) :
    BondsOk (trace ++ [.bonded x y]) { s with calls := Function.update s.calls i .idle } lists := by
  refine ⟨h.linked, fun a b => ?_⟩
  have hcalls := tally_update (pending a b) s.calls i .idle
  have hcounted := h.counted a b
  rw [hi] at hcalls
  simp only [pending] at hcalls
  rw [count_bonded, count_bonded]
  dsimp only
  omega

theorem BondsOk.step {s' : System α ι} (h : BondsOk trace s lists) (hs : guarded StoresOverLoaded Step s events s') :
    ∃ lists', BondsOk (trace ++ events) s' lists' := by
  obtain ⟨hstep, hguard⟩ := hs
  cases hstep with
  | begin i atom₁ atom₂ hidle => exact ⟨lists, h.keep nofun (by simp [hidle, pending])⟩
  | call s₁ i granted p _ hcall =>
      cases hi : s.calls i with
      | idle =>
          rw [hi] at hcall
          cases hcall
      | alloc atom₁ atom₂ =>
          rw [hi, akAtomBond] at hcall
          split_ifs at hcall
          · cases hcall
            exact ⟨lists, h.keep nofun (by simp [hi, pending])⟩
          · cases hcall
            exact ⟨lists, h.keep (by simp) (by simp [hi, pending])⟩
      | load₁ atom₁ atom₂ | load₂ atom₁ atom₂ =>
          rw [hi] at hcall
          cases hcall
          exact ⟨lists, h.keep nofun (by simp [hi, pending])⟩
      | store₁ atom₁ atom₂ old =>
          rw [hi] at hcall
          cases hcall
          exact ⟨_, h.store (hguard atom₁ old (by simp)) (by simp [hi, pending])⟩
      | store₂ atom₁ atom₂ old =>
          rw [hi] at hcall
          cases hcall
          exact ⟨_, h.store (hguard atom₂ old (by simp)) (by simp [hi, pending, and_comm])⟩
      | done atom₁ atom₂ =>
          rw [hi] at hcall
          cases hcall
          exact ⟨lists, h.bonded hi⟩

end Steps

/-- After all calls have returned, an atom is in another's list once for each bond
call between them, and twice in its own. -/
theorem bonds_counted {trace : List (Event α)} {s : System α ι}
    (hrun : Run (guarded StoresOverLoaded Step) (System.start α ι) trace s) (hidle : ∀ i, s.calls i = .idle) (a b : α) :
    (∃ l, Lists s.nodes (s.neighbors a) l) ∧
      ∀ l, Lists s.nodes (s.neighbors a) l → l.count b = trace.count (.bonded a b) + trace.count (.bonded b a) := by
  obtain ⟨lists, hok⟩ : ∃ lists, BondsOk trace s lists := by
    apply hrun.invariant (P := fun trace s => ∃ lists, BondsOk trace s lists)
    · refine ⟨fun _ => [], fun _ => rfl, fun a b => ?_⟩
      rw [pending_idle fun _ => rfl]
      rfl
    · exact fun _ _ _ _ ⟨_, h⟩ hs => h.step hs
  refine ⟨⟨_, hok.linked a⟩, fun l hl => ?_⟩
  rw [hl.unique (hok.linked a), hok.counted, pending_idle hidle, Nat.add_zero]

/-- Two threads bond the same atoms in turns, each of them between a load and a
store of the other one's list. -/
theorem bond_interleaved : ∃ trace, ∃ s : System Nat Bool,
    Run (guarded StoresOverLoaded Step) (System.start Nat Bool) trace s ∧ Lists s.nodes (s.neighbors 0) [1, 1] ∧
      trace.count (.bonded 0 1) + trace.count (.bonded 1 0) = 2 ∧
      ∀ l, Lists s.nodes (s.neighbors 0) l → l.count 1 = trace.count (.bonded 0 1) + trace.count (.bonded 1 0) := by
  have r₁ : Run (guarded StoresOverLoaded Step) (System.start Nat Bool) _ _ :=
    .next .start ⟨.begin _ true 0 1 rfl, nofun⟩
  have r₂ := r₁.next ⟨.call _ _ true true _ _ rfl, nofun⟩
  have r₃ := r₂.next ⟨.call _ _ true true (.store₁ 0 1 none) _ rfl, nofun⟩
  have r₄ := r₃.next ⟨.begin _ false 0 1 rfl, nofun⟩
  have r₅ := r₄.next ⟨.call _ _ true true _ _ rfl, by rintro a old h; cases List.mem_singleton.mp h; rfl⟩
  have r₆ := r₅.next ⟨.call _ _ false true _ _ rfl, nofun⟩
  have r₇ := r₆.next ⟨.call _ _ false true (.store₁ 0 1 (some 0)) _ rfl, nofun⟩
  have r₈ := r₇.next ⟨.call _ _ true true (.store₂ 0 1 none) _ rfl, nofun⟩
  have r₉ := r₈.next ⟨.call _ _ false true _ _ rfl, by rintro a old h; cases List.mem_singleton.mp h; rfl⟩
  have r₁₀ := r₉.next ⟨.call _ _ true true _ _ rfl, by rintro a old h; cases List.mem_singleton.mp h; rfl⟩
  have r₁₁ := r₁₀.next ⟨.call _ _ false true (.store₂ 0 1 (some 2)) _ rfl, nofun⟩
  have r₁₂ := r₁₁.next ⟨.call _ _ true true _ _ rfl, by simp [StoresOverLoaded]⟩
  have r₁₃ := r₁₂.next ⟨.call _ _ false true _ _ rfl, by rintro a old h; cases List.mem_singleton.mp h; rfl⟩
  have r₁₄ := r₁₃.next ⟨.call _ _ false true _ _ rfl, by simp [StoresOverLoaded]⟩
  refine ⟨_, _, r₁₄, ⟨1, some 0, rfl, rfl, 0, none, rfl, rfl, rfl⟩, by decide, (bonds_counted r₁₄ ?_ 0 1).2⟩
  intro i
  cases i <;> rfl

/-- Both threads load the list of atom 0 before either stores, and the first
store is overwritten. -/
theorem bond_lost : ∃ trace, ∃ s : System Nat Bool, Run Step (System.start Nat Bool) trace s ∧
    (∀ i, s.calls i = .idle) ∧ Lists s.nodes (s.neighbors 0) [1] ∧
      trace.count (.bonded 0 1) + trace.count (.bonded 1 0) = 2 := by
  have r₁ : Run Step (System.start Nat Bool) _ _ := .next .start (.begin _ true 0 1 rfl)
  have r₂ := r₁.next (.begin _ false 0 1 rfl)
  have r₃ := r₂.next (.call _ _ true true _ _ rfl)
  have r₄ := r₃.next (.call _ _ false true _ _ rfl)
  have r₅ := r₄.next (.call _ _ true true _ _ rfl)
  have r₆ := r₅.next (.call _ _ false true _ _ rfl)
  have r₇ := r₆.next (.call _ _ true true _ _ rfl)
  have r₈ := r₇.next (.call _ _ false true _ _ rfl)
  have r₉ := r₈.next (.call _ _ true true _ _ rfl)
  have r₁₀ := r₉.next (.call _ _ true true _ _ rfl)
  have r₁₁ := r₁₀.next (.call _ _ true true _ _ rfl)
  have r₁₂ := r₁₁.next (.call _ _ false true _ _ rfl)
  have r₁₃ := r₁₂.next (.call _ _ false true _ _ rfl)
  have r₁₄ := r₁₃.next (.call _ _ false true _ _ rfl)
  exact ⟨_, _, r₁₄, by decide, ⟨1, none, rfl, rfl, rfl⟩, by decide⟩

end Ak24.AtomBond
