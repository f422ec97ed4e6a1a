import Ak24.Holdings
import Ak24.Transition

namespace Ak24.LambdaModel

open Objects Holdings Transition

/-- Of the function that frees the captured context only whether there is one. -/
structure Lambda where
  fn : Nat
  capturedCtx : Option Nat
  ctxFree : Bool
  deriving DecidableEq, Repr

inductive Event
  | given (ctx : Nat)
  | destroyed (ctx : Nat)
  | invoked (owner : Bool) (fn : Nat) (ctx : Option Nat)
  deriving DecidableEq, Repr

def owned (ctx : Option Nat) (ctxFree : Bool) : List Nat := if ctxFree then ctx.toList else []

def akLambdaNew (h : Heap Lambda) (fn : Option Nat) (capturedCtx : Option Nat) (ctxFree granted : Bool) :
    Option Nat × List Event × Heap Lambda :=
  match fn with
  | none => (none, [], h)
  | some fn =>
    if !granted then (none, [], h)
    else (some h.next, (owned capturedCtx ctxFree).map .given, h.alloc ⟨fn, capturedCtx, ctxFree⟩)

/-- `none` is here and below the use of a lambda that is not there. -/
def akLambdaInvoke (h : Heap Lambda) (lambda : Option Nat) : Option (List Event × Heap Lambda) :=
  match lambda with
  | none => some ([], h)
  | some p => (h.cells p).map fun l => ([.invoked l.ctxFree l.fn l.capturedCtx], h)

def akLambdaFree (h : Heap Lambda) (lambda : Option Nat) : Option (List Event × Heap Lambda) :=
  match lambda with
  | none => some ([], h)
  | some p => (h.cells p).map fun l => ((owned l.capturedCtx l.ctxFree).map .destroyed, h.free p)

def akLambdaClone (h : Heap Lambda) (lambda : Option Nat) (granted : Bool) :
    Option (Option Nat × List Event × Heap Lambda) :=
  match lambda with
  | none => some (none, [], h)
  | some p =>
    if !granted then some (none, [], h)
    else (h.cells p).map fun l => (some h.next, [], h.alloc { l with ctxFree := false })

def akLambdaSetContext (h : Heap Lambda) (lambda : Option Nat) (capturedCtx : Option Nat) (ctxFree : Bool) :
    Option (Int × List Event × Heap Lambda) :=
  match lambda with
  | none => some (-1, [], h)
  | some p => (h.cells p).map fun l =>
    (0, (owned l.capturedCtx l.ctxFree).map .destroyed ++ (owned capturedCtx ctxFree).map .given,
      h.store p { l with capturedCtx, ctxFree })

inductive Step : Heap Lambda → List Event → Heap Lambda → Prop
  | new (h : Heap Lambda) (fn capturedCtx : Option Nat) (ctxFree granted : Bool) :
    Step h (akLambdaNew h fn capturedCtx ctxFree granted).2.1 (akLambdaNew h fn capturedCtx ctxFree granted).2.2
  | invoke (h h' : Heap Lambda) (lambda : Option Nat) (events : List Event)
    (hcall : akLambdaInvoke h lambda = some (events, h')) : Step h events h'
  | free (h h' : Heap Lambda) (lambda : Option Nat) (events : List Event)
    (hcall : akLambdaFree h lambda = some (events, h')) : Step h events h'
  | clone (h h' : Heap Lambda) (lambda : Option Nat) (granted : Bool) (clone : Option Nat) (events : List Event)
    (hcall : akLambdaClone h lambda granted = some (clone, events, h')) : Step h events h'
  | setContext (h h' : Heap Lambda) (lambda capturedCtx : Option Nat) (ctxFree : Bool) (status : Int)
    (events : List Event) (hcall : akLambdaSetContext h lambda capturedCtx ctxFree = some (status, events, h')) :
    Step h events h'

def given : Event → Option Nat
  | .given ctx => some ctx
  | _ => none

def destroyed : Event → Option Nat
  | .destroyed ctx => some ctx
  | _ => none

def Lambda.owns (l : Lambda) : Multiset Nat := owned l.capturedCtx l.ctxFree

/-- Each context that has been given to a lambda has been destroyed or has a lambda. -/
def Accounted (trace : List Event) (h : Heap Lambda) : Prop :=
  (trace.filterMap given : Multiset Nat) = (trace.filterMap destroyed : Multiset Nat) + holdings Lambda.owns h

/-- A lambda that frees its context is not invoked on one that has been destroyed. -/
def OwnersSafe (trace : List Event) : Prop :=
  ∀ ctx, NoUseAfter (fun e => e = .destroyed ctx) (fun e => ∃ fn, e = .invoked true fn (some ctx)) trace

section Steps

variable {trace events : List Event} {h h' : Heap Lambda}

theorem filterMap_given_map (l : List Nat) : (l.map Event.given).filterMap given = l := by
  rw [List.filterMap_map]
  exact List.filterMap_some

theorem filterMap_destroyed_map (l : List Nat) : (l.map Event.destroyed).filterMap destroyed = l := by
  rw [List.filterMap_map]
  exact List.filterMap_some

theorem filterMap_given_destroyed (l : List Nat) : (l.map Event.destroyed).filterMap given = [] := by
  rw [List.filterMap_map]
  exact List.filterMap_eq_nil_iff.mpr fun _ _ => rfl

theorem filterMap_destroyed_given (l : List Nat) : (l.map Event.given).filterMap destroyed = [] := by
  rw [List.filterMap_map]
  exact List.filterMap_eq_nil_iff.mpr fun _ _ => rfl

/-- A step gives and destroys what the lambdas own more and less after it. -/
theorem step_balance (hs : Step h events h') :
    (events.filterMap given : Multiset Nat) + holdings Lambda.owns h =
      (events.filterMap destroyed : Multiset Nat) + holdings Lambda.owns h' := by
  cases hs with
  | new fn capturedCtx ctxFree granted =>
      cases fn with
      | none => rfl
      | some fn =>
          cases granted with
          | false => rfl
          | true =>
              simp only [akLambdaNew, Bool.not_true, Bool.false_eq_true, if_false]
              rw [filterMap_given_map, filterMap_destroyed_given, holdings_alloc, Multiset.coe_nil, zero_add, add_comm]
              rfl
  | invoke _ lambda _ hcall =>
      cases lambda with
      | none =>
          cases hcall
          rfl
      | some p =>
          obtain ⟨l, -, heq⟩ := Option.map_eq_some_iff.mp hcall
          cases heq
          rfl
  | free _ lambda _ hcall =>
      cases lambda with
      | none =>
          cases hcall
          rfl
      | some p =>
          obtain ⟨l, hl, heq⟩ := Option.map_eq_some_iff.mp hcall
          cases heq
          rw [filterMap_given_destroyed, filterMap_destroyed_map, ← holdings_free hl, Multiset.coe_nil, zero_add,
            add_comm]
          rfl
  | clone _ lambda granted _ _ hcall =>
      cases lambda with
      | none =>
          cases hcall
          rfl
      | some p =>
          simp only [akLambdaClone] at hcall
          split_ifs at hcall
          · cases hcall
            rfl
          · obtain ⟨l, -, heq⟩ := Option.map_eq_some_iff.mp hcall
            cases heq
            have hclone : Lambda.owns { l with ctxFree := false } = 0 := rfl
            rw [holdings_alloc, hclone, add_zero]
            rfl
  | setContext _ lambda capturedCtx ctxFree _ _ hcall =>
      cases lambda with
      | none =>
          cases hcall
          rfl
      | some p =>
          obtain ⟨l, hl, heq⟩ := Option.map_eq_some_iff.mp hcall
          cases heq
          have hstore := holdings_store (f := Lambda.owns) (b := { l with capturedCtx, ctxFree }) hl
          rw [List.filterMap_append, List.filterMap_append, filterMap_given_destroyed, filterMap_given_map,
            filterMap_destroyed_map, filterMap_destroyed_given, List.nil_append, List.append_nil]
          rw [add_comm, add_comm (owned l.capturedCtx l.ctxFree : Multiset Nat)]
          exact hstore.symm

theorem Accounted.step (hold : Accounted trace h) (hs : Step h events h') : Accounted (trace ++ events) h' := by
  have hbalance := step_balance hs
  rw [Accounted] at hold
  rw [Accounted, List.filterMap_append, List.filterMap_append, ← Multiset.coe_add, ← Multiset.coe_add, hold,
    add_assoc, add_assoc, add_comm (holdings Lambda.owns h), hbalance]

theorem step_invoked {fn ctx : Nat} (hs : Step h events h') (hmem : .invoked true fn (some ctx) ∈ events) :
    events.length = 1 ∧ ∃ p l, h.cells p = some l ∧ ctx ∈ l.owns := by
  cases hs with
  | new fn capturedCtx ctxFree granted =>
      simp only [akLambdaNew] at hmem
      split at hmem
      · cases hmem
      · split_ifs at hmem
        · cases hmem
        · simp at hmem
  | invoke _ lambda _ hcall =>
      cases lambda with
      | none =>
          cases hcall
          cases hmem
      | some p =>
          obtain ⟨l, hl, heq⟩ := Option.map_eq_some_iff.mp hcall
          cases heq
          obtain ⟨howner, -, hctx⟩ := Event.invoked.inj (List.mem_singleton.mp hmem)
          refine ⟨rfl, p, l, hl, ?_⟩
          rw [Lambda.owns, ← howner, ← hctx]
          exact List.mem_singleton.mpr rfl
  | free _ lambda _ hcall =>
      cases lambda with
      | none =>
          cases hcall
          cases hmem
      | some p =>
          obtain ⟨l, -, heq⟩ := Option.map_eq_some_iff.mp hcall
          cases heq
          simp at hmem
  | clone _ lambda granted _ _ hcall =>
      cases lambda with
      | none =>
          cases hcall
          cases hmem
      | some p =>
          simp only [akLambdaClone] at hcall
          split_ifs at hcall
          · cases hcall
            cases hmem
          · obtain ⟨l, -, heq⟩ := Option.map_eq_some_iff.mp hcall
            cases heq
            cases hmem
  | setContext _ lambda capturedCtx ctxFree _ _ hcall =>
      cases lambda with
      | none =>
          cases hcall
          cases hmem
      | some p =>
          obtain ⟨l, -, heq⟩ := Option.map_eq_some_iff.mp hcall
          cases heq
          simp at hmem

theorem mem_destroyed {ctx : Nat} (h : Event.destroyed ctx ∈ trace) : ctx ∈ trace.filterMap destroyed :=
  List.mem_filterMap.mpr ⟨_, h, rfl⟩

theorem Accounted.nodup_destroyed (hacc : Accounted trace h) (hnodup : (trace.filterMap given).Nodup) :
    (trace.filterMap destroyed).Nodup := by
  rw [← Multiset.coe_nodup] at hnodup ⊢
  exact Multiset.nodup_of_le (hacc ▸ Multiset.le_add_right _ _) hnodup

theorem Accounted.not_destroyed (hacc : Accounted trace h) (hnodup : (trace.filterMap given).Nodup) {p ctx : Nat}
    {l : Lambda} (hl : h.cells p = some l) (hctx : ctx ∈ l.owns) : ctx ∉ trace.filterMap destroyed := by
  rw [← Multiset.coe_nodup, hacc, Multiset.nodup_add] at hnodup
  intro hmem
  exact Multiset.disjoint_left.mp hnodup.2.2 (Multiset.mem_coe.mpr hmem) (Multiset.mem_of_le (le_holdings hl) hctx)

theorem OwnersSafe.step (hacc : Accounted trace h) (hnodup : (trace.filterMap given).Nodup) (hsafe : OwnersSafe trace)
    (hs : Step h events h') : OwnersSafe (trace ++ events) := by
  intro ctx
  refine List.pairwise_append.mpr ⟨hsafe ctx, ?_, ?_⟩
  · by_cases huse : ∃ fn, .invoked true fn (some ctx) ∈ events
    · obtain ⟨fn, hmem⟩ := huse
      obtain ⟨e, rfl⟩ := List.length_eq_one_iff.mp (step_invoked hs hmem).1
      exact List.pairwise_singleton _ _
    · refine NoUseAfter.of_no_use ?_
      rintro _ hmem ⟨fn, rfl⟩
      exact huse ⟨fn, hmem⟩
  · rintro _ hold _ hnew rfl ⟨fn, rfl⟩
    obtain ⟨-, p, l, hl, hctx⟩ := step_invoked hs hnew
    exact hacc.not_destroyed hnodup hl hctx (mem_destroyed hold)

end Steps

section Runs

variable {trace : List Event} {h : Heap Lambda}

theorem accounted_of_run (hrun : Run Step (Heap.empty Lambda) trace h) : Accounted trace h :=
  hrun.invariant (P := Accounted) rfl fun _ _ _ _ hold hs => hold.step hs

theorem ownersSafe_of_run (hrun : Run Step (Heap.empty Lambda) trace h) (hnodup : (trace.filterMap given).Nodup) :
    OwnersSafe trace := by
  induction hrun with
  | start => exact fun _ => List.Pairwise.nil
  | next hrun hs ih =>
      rw [List.filterMap_append] at hnodup
      have hbefore := hnodup.of_append_left
      exact OwnersSafe.step (accounted_of_run hrun) hbefore (ih hbefore) hs

/-- Over every run of the lambdas, each context is destroyed as often as it was
given less the lambdas that own it, and all of them are when no lambda is left.
Where each is given once, none is destroyed twice, none that a lambda owns has
been, and no owner is invoked on one that has been. -/
theorem contexts_destroyed_once (hrun : Run Step (Heap.empty Lambda) trace h) :
    Accounted trace h ∧
    ((∀ p, h.cells p = none) → (trace.filterMap given).Perm (trace.filterMap destroyed)) ∧
    ((trace.filterMap given).Nodup →
      (trace.filterMap destroyed).Nodup ∧
      (∀ p l ctx, h.cells p = some l → ctx ∈ l.owns → ctx ∉ trace.filterMap destroyed) ∧ OwnersSafe trace) := by
  have hacc := accounted_of_run hrun
  refine ⟨hacc, ?_, ?_⟩
  · intro hnone
    rw [Accounted, holdings_eq_zero hnone, add_zero] at hacc
    exact Multiset.coe_eq_coe.mp hacc
  · intro hnodup
    exact ⟨hacc.nodup_destroyed hnodup, fun _ _ _ hl hctx => hacc.not_destroyed hnodup hl hctx,
      ownersSafe_of_run hrun hnodup⟩

/-- A lambda, its clone, a context that replaces the first one, and both lambdas freed. -/
theorem contexts_destroyed_once_replaced :
    let trace : List Event := [.given 7, .invoked true 1 (some 7), .destroyed 7, .given 8,
      .invoked false 1 (some 7), .destroyed 8]
    (trace.filterMap given).Perm (trace.filterMap destroyed) ∧ OwnersSafe trace := by
  intro trace
  obtain ⟨h, hrun, hnone⟩ : ∃ h, Run Step (Heap.empty Lambda) trace h ∧ ∀ p, h.cells p = none := by
    have h₁ := Run.start.next (Step.new (Heap.empty Lambda) (some 1) (some 7) true true)
    have h₂ := h₁.next (.clone _ _ (some 0) true _ _ rfl)
    have h₃ := h₂.next (.invoke _ _ (some 0) _ rfl)
    have h₄ := h₃.next (.setContext _ _ (some 0) (some 8) true _ _ rfl)
    have h₅ := h₄.next (.invoke _ _ (some 1) _ rfl)
    have h₆ := h₅.next (.free _ _ (some 0) _ rfl)
    have h₇ := h₆.next (.free _ _ (some 1) _ rfl)
    refine ⟨_, h₇, fun p => ?_⟩
    match p with
    | 0 => rfl
    | 1 => rfl
    | p + 2 => rfl
  obtain ⟨-, hperm, hsafe⟩ := contexts_destroyed_once hrun
  exact ⟨hperm hnone, (hsafe (by decide)).2.2⟩

end Runs

end Ak24.LambdaModel
