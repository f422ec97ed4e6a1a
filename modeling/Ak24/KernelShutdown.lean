import Ak24.ListRefinement

namespace Ak24.KernelShutdown

open ListModel ListRefinement Objects Transition

structure Kernel where
  shutdownLambdas : State Nat
  shutdownLambdasInitialized : Bool

def akKernelInit (k : Kernel) : Kernel := ⟨{ k.shutdownLambdas with list := listInit }, true⟩

/-- The first component says whether the lambda is now on the list, which the
caller is not told. -/
def akOnShutdown (k : Kernel) (lambda : Option Nat) (grants : Grants) : Option (Bool × Kernel) :=
  match lambda with
  | none => some (false, k)
  | some lambda =>
    if !k.shutdownLambdasInitialized then some (false, k)
    else
      (listPush k.shutdownLambdas lambda grants).map fun (code, shutdownLambdas) =>
        (code = 0, { k with shutdownLambdas })

inductive Phase
  | idle
  | looping (iter : ListIter)
  | invoking (iter : ListIter)
  deriving DecidableEq, Repr

structure System where
  kernel : Kernel
  phase : Phase

inductive Event
  | initialized
  | registered (lambda : Nat)
  | invoked (lambda : Nat)
  | deinited
  deriving DecidableEq, Repr

def deinitNext (k : Kernel) (iter : ListIter) : Option (List Event × System) := do
  let (p, iter) ← listNext k.shutdownLambdas.list iter
  match p with
  | some p =>
    let lambda ← k.shutdownLambdas.heap.cells p
    some ([.invoked lambda], ⟨k, .invoking iter⟩)
  | none =>
    let shutdownLambdas ← listDeinit k.shutdownLambdas
    some ([.deinited], ⟨⟨shutdownLambdas, false⟩, .idle⟩)

/-- The loop is left to run by itself but for the lambda that is running, which
may register more of them and calls nothing else of the kernel. -/
inductive Step : System → List Event → System → Prop
  | init (k : Kernel) : Step ⟨k, .idle⟩ [.initialized] ⟨akKernelInit k, .idle⟩
  | onShutdown (s : System) (lambda : Option Nat) (grants : Grants) (added : Bool) (kernel : Kernel)
    (hphase : ∀ iter, s.phase ≠ .looping iter) (h : akOnShutdown s.kernel lambda grants = some (added, kernel)) :
    Step s (if added then lambda.toList.map .registered else []) { s with kernel }
  | deinit (k : Kernel) (h : k.shutdownLambdasInitialized = true) : Step ⟨k, .idle⟩ [] ⟨k, .looping listIter⟩
  | next (k : Kernel) (iter : ListIter) (events : List Event) (s' : System)
    (h : deinitNext k iter = some (events, s')) : Step ⟨k, .looping iter⟩ events s'
  | return (k : Kernel) (iter : ListIter) : Step ⟨k, .invoking iter⟩ [] ⟨k, .looping iter⟩

def System.start : System := ⟨⟨⟨listInit, Heap.empty Nat⟩, false⟩, .idle⟩

/-- The list has fewer than 2³¹ lambdas. -/
def Room (s : System) (_ : List Event) : Prop := s.kernel.shutdownLambdas.list.count < 2 ^ 31

/-- The lambdas registered and those invoked since the kernel was last
initialized or deinitialized. -/
def record (cycle : List Nat × List Nat) : Event → List Nat × List Nat
  | .initialized => ([], [])
  | .registered lambda => (cycle.1 ++ [lambda], cycle.2)
  | .invoked lambda => (cycle.1, cycle.2 ++ [lambda])
  | .deinited => ([], [])

def cycle (trace : List Event) : List Nat × List Nat := trace.foldl record ([], [])

/-- Whenever the kernel has been deinitialized, its lambdas have been invoked in
the order of their registration. -/
def Complete (trace : List Event) : Prop :=
  ∀ before after, trace = before ++ .deinited :: after → (cycle before).2 = (cycle before).1

def Phase.done : Phase → Nat
  | .idle => 0
  | .looping iter => iter.index
  | .invoking iter => iter.index

def Phase.Valid : Phase → Prop
  | .idle => True
  | .looping iter => iter.valid = true
  | .invoking iter => iter.valid = true

structure Ok (trace : List Event) (s : System) (ptrs lambdas : List Nat) : Prop where
  list : ListOk s.kernel.shutdownLambdas ptrs lambdas
  small : s.kernel.shutdownLambdas.list.count ≤ 2 ^ 31
  off : s.kernel.shutdownLambdasInitialized = false → s.phase = .idle ∧ lambdas = []
  valid : s.phase.Valid
  done : s.phase.done ≤ lambdas.length
  recorded : cycle trace = (lambdas, lambdas.take s.phase.done)

section Steps

variable {trace events : List Event} {s s' : System} {k : Kernel} {iter : ListIter} {ptrs lambdas : List Nat}

theorem cycle_append (trace : List Event) (e : Event) : cycle (trace ++ [e]) = record (cycle trace) e := by
  rw [cycle, cycle, List.foldl_append]
  rfl

theorem Complete.append {e : Event} (h : Complete trace)
    (hlast : e = .deinited → (cycle trace).2 = (cycle trace).1) : Complete (trace ++ [e]) := by
  intro before after heq
  rcases List.eq_nil_or_concat after with rfl | ⟨rest, last, rfl⟩
  · obtain ⟨rfl, he⟩ := List.append_inj' heq rfl
    cases he
    exact hlast rfl
  · rw [List.concat_eq_append, ← List.cons_append, ← List.append_assoc] at heq
    exact h before rest (List.append_inj' heq rfl).1

theorem Ok.onShutdown {lambda : Option Nat} {grants : Grants} {added : Bool} {kernel : Kernel}
    (h : Ok trace s ptrs lambdas) (hroom : s.kernel.shutdownLambdas.list.count < 2 ^ 31)
    (hcall : akOnShutdown s.kernel lambda grants = some (added, kernel)) :
    ∃ ptrs' lambdas', Ok (trace ++ if added then lambda.toList.map .registered else []) { s with kernel } ptrs' lambdas' := by
  have hsame : ∀ {added : Bool}, some (false, s.kernel) = some (added, kernel) → ∃ ptrs' lambdas',
      Ok (trace ++ if added then lambda.toList.map .registered else []) { s with kernel } ptrs' lambdas' := by
    rintro _ ⟨⟩
    refine ⟨ptrs, lambdas, ?_⟩
    simpa using h
  cases lambda with
  | none => exact hsame hcall
  | some lambda =>
      simp only [akOnShutdown] at hcall
      split_ifs at hcall with hoff
      · exact hsame hcall
      · rw [Bool.not_eq_true', Bool.not_eq_false] at hoff
        rcases listPush_cases h.list grants lambda hroom with ⟨l, ptrs', hpush, hok⟩ | ⟨l, hpush, hok, -⟩
        · rw [hpush, Option.map_some] at hcall
          cases hcall
          refine ⟨ptrs', lambdas ++ [lambda], hok, ?_, ?_, h.valid, ?_, ?_⟩
          · have hold := h.list.count_eq
            have hnew := hok.count_eq
            rw [List.length_append, List.length_singleton] at hnew
            show l.list.count ≤ 2 ^ 31
            omega
          · intro hfalse
            rw [show s.kernel.shutdownLambdasInitialized = false from hfalse] at hoff
            cases hoff
          · rw [List.length_append]
            exact h.done.trans (Nat.le_add_right _ _)
          · show cycle (trace ++ [.registered lambda]) = _
            rw [cycle_append, h.recorded, record, List.take_append_of_le_length h.done]
        · rw [hpush, Option.map_some] at hcall
          cases hcall
          refine ⟨ptrs, lambdas, hok, ?_, fun hfalse => h.off hfalse, h.valid, h.done, ?_⟩
          · have hold := h.list.count_eq
            have hnew := hok.count_eq
            show l.list.count ≤ 2 ^ 31
            omega
          · show cycle (trace ++ []) = _
            rw [List.append_nil]
            exact h.recorded

theorem Ok.next (h : Ok trace ⟨k, .looping iter⟩ ptrs lambdas) (hcomplete : Complete trace)
    (hnext : deinitNext k iter = some (events, s')) :
    Complete (trace ++ events) ∧ ∃ ptrs' lambdas', Ok (trace ++ events) s' ptrs' lambdas' := by
  have hcount : k.shutdownLambdas.list.count = lambdas.length := h.list.count_eq
  have hsmall : k.shutdownLambdas.list.count ≤ 2 ^ 31 := h.small
  have hvalid : iter.valid = true := h.valid
  have hcycle : cycle trace = (lambdas, lambdas.take iter.index) := h.recorded
  rw [deinitNext, listNext, hvalid] at hnext
  by_cases hend : iter.index ≥ k.shutdownLambdas.list.count
  · obtain ⟨l, hdeinit, hok⟩ := listDeinit_ok h.list
    have hdeinit' : listDeinit k.shutdownLambdas = some l := hdeinit
    rw [if_pos (.inr hend)] at hnext
    simp only [bind, Option.bind, hdeinit'] at hnext
    cases hnext
    refine ⟨hcomplete.append fun _ => ?_, [], [], hok, ?_, fun _ => ⟨rfl, rfl⟩, trivial, le_rfl, ?_⟩
    · rw [hcycle, List.take_of_length_le (by omega)]
    · rw [hok.count_eq]
      exact Nat.zero_le _
    · rw [cycle_append]
      rfl
  · have hlt : iter.index < lambdas.length := by omega
    obtain ⟨p, -, hfetch, hp⟩ := h.list.item hlt
    have hfetch' : Blocks.fetch k.shutdownLambdas.list.items iter.index = some p := hfetch
    have hp' : k.shutdownLambdas.heap.cells p = some lambdas[iter.index] := hp
    rw [if_neg (by simpa using hend), hfetch'] at hnext
    simp only [bind, Option.bind, Option.map_some, hp'] at hnext
    cases hnext
    have hindex : (iter.index + 1) % 2 ^ 32 = iter.index + 1 := Nat.mod_eq_of_lt (by omega)
    refine ⟨hcomplete.append nofun, ptrs, lambdas, h.list, h.small, ?_, rfl, ?_, ?_⟩
    · intro hfalse
      obtain ⟨hidle, -⟩ := h.off hfalse
      cases hidle
    · show (iter.index + 1) % 2 ^ 32 ≤ lambdas.length
      omega
    · show cycle (trace ++ [.invoked lambdas[iter.index]]) = (lambdas, lambdas.take ((iter.index + 1) % 2 ^ 32))
      rw [cycle_append, hcycle, hindex, record, List.take_succ_eq_append_getElem hlt]

theorem Ok.step (h : Ok trace s ptrs lambdas) (hcomplete : Complete trace) (hs : guarded Room Step s events s') :
    Complete (trace ++ events) ∧ ∃ ptrs' lambdas', Ok (trace ++ events) s' ptrs' lambdas' := by
  obtain ⟨hstep, hroom⟩ := hs
  cases hstep with
  | init k =>
      refine ⟨hcomplete.append nofun, [], [], listInit_ok _, Nat.zero_le _, nofun, trivial, le_rfl, ?_⟩
      rw [cycle_append]
      rfl
  | onShutdown _ lambda grants added kernel hphase hcall =>
      refine ⟨?_, h.onShutdown hroom hcall⟩
      cases added with
      | false => simpa using hcomplete
      | true =>
          cases lambda with
          | none => simpa using hcomplete
          | some lambda => exact hcomplete.append nofun
  | deinit k hon =>
      rw [List.append_nil]
      refine ⟨hcomplete, ptrs, lambdas, h.list, h.small, ?_, rfl, Nat.zero_le _, h.recorded⟩
      intro hfalse
      rw [show k.shutdownLambdasInitialized = false from hfalse] at hon
      cases hon
  | next k iter _ _ hnext => exact h.next hcomplete hnext
  | «return» k iter =>
      rw [List.append_nil]
      refine ⟨hcomplete, ptrs, lambdas, h.list, h.small, ?_, h.valid, h.done, h.recorded⟩
      intro hfalse
      obtain ⟨hidle, -⟩ := h.off hfalse
      cases hidle

end Steps

/-- In every run each lambda that was registered since the kernel was initialized,
be it by another while the kernel shuts down, is invoked once before the kernel
is deinitialized, in the order of registration; and none is invoked at another
time. -/
theorem shutdown_invokes_all {trace : List Event} {s : System}
    (hrun : Run (guarded Room Step) System.start trace s) :
    Complete trace ∧ (cycle trace).2 <+: (cycle trace).1 ∧ (s.phase = .idle → (cycle trace).2 = []) := by
  obtain ⟨hcomplete, ptrs, lambdas, hok⟩ : Complete trace ∧ ∃ ptrs lambdas, Ok trace s ptrs lambdas := by
    apply hrun.invariant (P := fun trace s => Complete trace ∧ ∃ ptrs lambdas, Ok trace s ptrs lambdas)
    · refine ⟨?_, [], [], listInit_ok _, Nat.zero_le _, fun _ => ⟨rfl, rfl⟩, trivial, le_rfl, rfl⟩
      intro before after heq
      simp at heq
    · rintro trace s events s' ⟨hcomplete, ptrs, lambdas, hok⟩ hs
      exact hok.step hcomplete hs
  refine ⟨hcomplete, ?_, fun hidle => ?_⟩
  · rw [hok.recorded]
    exact List.take_prefix _ _
  · rw [hok.recorded, hidle]
    rfl

/-- A lambda registers another while it runs. -/
theorem shutdown_invokes_all_nested : ∃ trace s, Run (guarded Room Step) System.start trace s ∧
    trace = [.initialized, .registered 7, .invoked 7, .registered 9, .invoked 9, .deinited] ∧ Complete trace := by
  let all : Grants := ⟨true, true, true⟩
  have r₁ : Run (guarded Room Step) System.start _ _ := .next .start ⟨.init _, Nat.zero_lt_succ _⟩
  have r₂ := r₁.next ⟨.onShutdown _ (some 7) all _ _ nofun rfl, Nat.zero_lt_succ _⟩
  have r₃ := r₂.next ⟨.deinit _ rfl, by show (1 : Nat) < 2 ^ 31; decide⟩
  have r₄ := r₃.next ⟨.next _ _ _ _ rfl, by show (1 : Nat) < 2 ^ 31; decide⟩
  have r₅ := r₄.next ⟨.onShutdown _ (some 9) all _ _ nofun rfl, by show (1 : Nat) < 2 ^ 31; decide⟩
  have r₆ := (r₅.next ⟨.return _ _, by show (2 : Nat) < 2 ^ 31; decide⟩).next
    ⟨.next _ _ _ _ rfl, by show (2 : Nat) < 2 ^ 31; decide⟩
  have r₇ := (r₆.next ⟨.return _ _, by show (2 : Nat) < 2 ^ 31; decide⟩).next
    ⟨.next _ _ _ _ rfl, by show (2 : Nat) < 2 ^ 31; decide⟩
  exact ⟨_, _, r₇, rfl, (shutdown_invokes_all r₇).1⟩

end Ak24.KernelShutdown
