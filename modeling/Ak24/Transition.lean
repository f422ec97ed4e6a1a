import Mathlib

namespace Ak24.Transition

variable {σ τ ε δ : Type}

/-- The runs of a labelled transition system from `s₀`, with the events its
steps emitted so far in order. -/
inductive Run (step : σ → List ε → σ → Prop) (s₀ : σ) : List ε → σ → Prop
  | start : Run step s₀ [] s₀
  | next {trace events : List ε} {s s' : σ} :
    Run step s₀ trace s → step s events s' → Run step s₀ (trace ++ events) s'

variable {step : σ → List ε → σ → Prop} {s₀ s : σ} {trace : List ε}

theorem Run.invariant {P : List ε → σ → Prop} (h : Run step s₀ trace s) (hinit : P [] s₀)
    (hstep : ∀ trace s events s', P trace s → step s events s' → P (trace ++ events) s') : P trace s := by
  induction h with
  | start => exact hinit
  | next _ hs ih => exact hstep _ _ _ _ ih hs

/-- Forward simulation: each step is matched by one step of the abstract
system, with its events renamed by `f`. -/
theorem Run.simulate {step' : τ → List δ → τ → Prop} {t₀ : τ} {R : σ → τ → Prop} {f : ε → δ}
    (h : Run step s₀ trace s) (hinit : R s₀ t₀)
    (hstep : ∀ trace s t events s', Run step' t₀ trace t → R s t → step s events s' →
      ∃ t', step' t (events.map f) t' ∧ R s' t') :
    ∃ t, Run step' t₀ (trace.map f) t ∧ R s t := by
  induction h with
  | start => exact ⟨t₀, .start, hinit⟩
  | next _ hs ih =>
      obtain ⟨t, ht, hr⟩ := ih
      obtain ⟨t', ht', hr'⟩ := hstep _ _ _ _ _ ht hr hs
      exact ⟨t', by simpa only [List.map_append] using ht.next ht', hr'⟩

/-- The steps that are taken only where `guard` allows them. -/
def guarded (guard : σ → List ε → Prop) (step : σ → List ε → σ → Prop) : σ → List ε → σ → Prop :=
  fun s events s' => step s events s' ∧ guard s events

theorem Run.of_guarded {guard : σ → List ε → Prop} (h : Run (guarded guard step) s₀ trace s) :
    Run step s₀ trace s := by
  induction h with
  | start => exact .start
  | next _ hs ih => exact ih.next hs.1

def script {μ : Type} (next : σ → μ → Option (List ε × σ)) : List ε × σ → List μ → Option (List ε × σ)
  | r, [] => some r
  | (trace, s), m :: moves =>
    match next s m with
    | none => none
    | some (events, s') => script next (trace ++ events, s') moves

theorem Run.script {μ : Type} {next : σ → μ → Option (List ε × σ)} {r : List ε × σ} (h : Run step s₀ trace s)
    (hnext : ∀ s m events s', next s m = some (events, s') → step s events s') (moves : List μ)
    (hr : Transition.script next (trace, s) moves = some r) : Run step s₀ r.1 r.2 := by
  induction moves generalizing trace s with
  | nil =>
      cases hr
      exact h
  | cons m moves ih =>
      rw [Transition.script] at hr
      split at hr
      · cases hr
      · rename_i events s' hm
        exact ih (h.next (hnext s m events s' hm)) hr

section Lifetimes

variable {ends uses : ε → Prop}

/-- No event of the trace uses what an earlier one has ended. -/
def NoUseAfter (ends uses : ε → Prop) (trace : List ε) : Prop := trace.Pairwise fun e u => ends e → ¬uses u

theorem NoUseAfter.of_no_end (h : ∀ e ∈ trace, ¬ends e) : NoUseAfter ends uses trace :=
  List.pairwise_of_forall_mem_list fun e he _ _ hends => absurd hends (h e he)

theorem NoUseAfter.of_no_use (h : ∀ u ∈ trace, ¬uses u) : NoUseAfter ends uses trace :=
  List.pairwise_of_forall_mem_list fun _ _ u hu _ => h u hu

/-- What has ended stays `gone`, and nothing uses it there. -/
theorem Run.no_use_after (Ok gone : σ → Prop) (h : Run step s₀ trace s) (hinit : Ok s₀)
    (hok : ∀ s events s', Ok s → step s events s' → Ok s')
    (hone : ∀ s events s', Ok s → step s events s' → NoUseAfter ends uses events)
    (hend : ∀ s events s', Ok s → step s events s' → ∀ e ∈ events, ends e → gone s')
    (hgone : ∀ s events s', Ok s → step s events s' → gone s → gone s' ∧ ∀ u ∈ events, ¬uses u) :
    NoUseAfter ends uses trace := by
  have hinv : Ok s ∧ (∀ e ∈ trace, ends e → gone s) ∧ NoUseAfter ends uses trace := by
    apply h.invariant (P := fun trace s => Ok s ∧ (∀ e ∈ trace, ends e → gone s) ∧ NoUseAfter ends uses trace)
    · exact ⟨hinit, nofun, List.Pairwise.nil⟩
    · rintro trace s events s' ⟨hs, hended, hused⟩ hstep
      refine ⟨hok s events s' hs hstep, ?_, ?_⟩
      · intro e he hends
        rcases List.mem_append.mp he with hold | hnew
        · exact (hgone s events s' hs hstep (hended e hold hends)).1
        · exact hend s events s' hs hstep e hnew hends
      · refine List.pairwise_append.mpr ⟨hused, hone s events s' hs hstep, ?_⟩
        intro e he u hu hends
        exact (hgone s events s' hs hstep (hended e he hends)).2 u hu
  exact hinv.2.2

end Lifetimes

section Conditions

variable {ι : Type} [DecidableEq ι]

/-- What a signal does to the threads blocked on a condition: it wakes one of
them, and is lost when there is none. -/
inductive Signal (blocked : Finset ι) : Finset ι → Prop
  | wake (i : ι) (hi : i ∈ blocked) : Signal blocked (blocked.erase i)
  | lost (h : blocked = ∅) : Signal blocked ∅

theorem Signal.card_succ {blocked blocked' : Finset ι} (h : Signal blocked blocked') :
    blocked' = ∅ ∨ blocked'.card + 1 = blocked.card := by
  cases h with
  | wake i hi => exact .inr (Finset.card_erase_add_one hi)
  | lost => exact .inl rfl

end Conditions

section Parties

variable {ι π : Type} [Fintype ι]

def tally (g : π → Nat) (parties : ι → π) : Nat := ∑ i, g (parties i)

theorem tally_update [DecidableEq ι] (g : π → Nat) (parties : ι → π) (i : ι) (p : π) :
    tally g (Function.update parties i p) + g (parties i) = tally g parties + g p := by
  have hupdate : (fun j => g (Function.update parties i p j)) = Function.update (fun j => g (parties j)) i (g p) := by
    funext j
    exact Function.apply_update (fun _ => g) parties i p j
  have hsum : g (parties i) + ∑ j ∈ Finset.univ \ {i}, g (parties j) = ∑ j, g (parties j) := by
    rw [Finset.sdiff_singleton_eq_erase]
    exact Finset.add_sum_erase _ (fun j => g (parties j)) (Finset.mem_univ i)
  rw [tally, tally, hupdate, Finset.sum_update_of_mem (Finset.mem_univ i), ← hsum]
  omega

theorem tally_mono {f g : π → Nat} (h : ∀ p, f p ≤ g p) (parties : ι → π) : tally f parties ≤ tally g parties :=
  Finset.sum_le_sum fun i _ => h (parties i)

theorem le_tally (g : π → Nat) (parties : ι → π) (i : ι) : g (parties i) ≤ tally g parties :=
  Finset.single_le_sum (f := fun j => g (parties j)) (fun _ _ => Nat.zero_le _) (Finset.mem_univ i)

theorem add_le_tally [DecidableEq ι] (g : π → Nat) (parties : ι → π) {i j : ι} (hij : i ≠ j) :
    g (parties i) + g (parties j) ≤ tally g parties := by
  rw [tally, ← Finset.add_sum_erase _ _ (Finset.mem_univ i)]
  apply Nat.add_le_add_left
  apply Finset.single_le_sum (f := fun j => g (parties j)) (fun _ _ => Nat.zero_le _)
  exact Finset.mem_erase.mpr ⟨hij.symm, Finset.mem_univ j⟩

theorem tally_eq_zero {g : π → Nat} {parties : ι → π} (h : ∀ i, g (parties i) = 0) : tally g parties = 0 :=
  Finset.sum_eq_zero fun i _ => h i

omit [Fintype ι] in
theorem exists_update [DecidableEq ι] {P : π → Prop} {parties : ι → π} {i : ι} {p : π} (h : ∃ j, P (parties j))
    (hi : P (parties i) → P p) : ∃ j, P (Function.update parties i p j) := by
  obtain ⟨j, hj⟩ := h
  by_cases hji : j = i
  · subst j
    exact ⟨i, by simpa only [Function.update_self] using hi hj⟩
  · exact ⟨j, by simpa only [Function.update_of_ne hji] using hj⟩

theorem exists_mem_set {P : π → Prop} {parties : List π} {k : Nat} {p q : π} (h : ∃ r ∈ parties, P r)
    (hk : parties[k]? = some p) (hpq : P p → P q) : ∃ r ∈ parties.set k q, P r := by
  obtain ⟨r, hr, hPr⟩ := h
  obtain ⟨m, hm⟩ := List.mem_iff_getElem?.mp hr
  obtain ⟨hlt, -⟩ := List.getElem?_eq_some_iff.mp hk
  by_cases hmk : m = k
  · subst m
    rw [hk] at hm
    cases hm
    exact ⟨q, List.mem_set hlt q, hpq hPr⟩
  · exact ⟨r, List.mem_of_getElem? (by rwa [List.getElem?_set_ne (Ne.symm hmk)]), hPr⟩

theorem countP_set_add {P : π → Bool} {parties : List π} {k : Nat} {p q : π} (hk : parties[k]? = some p) :
    (parties.set k q).countP P + (if P p then 1 else 0) = parties.countP P + if P q then 1 else 0 := by
  induction parties generalizing k with
  | nil => cases hk
  | cons r parties ih =>
      cases k with
      | zero =>
          cases hk
          cases hp : P p <;> cases hq : P q <;> simp [hp, hq]
      | succ k =>
          have hrest := ih hk
          simp only [List.set_cons_succ, List.countP_cons]
          omega

omit [Fintype ι] in
theorem pairs_update [DecidableEq ι] {R : π → π → Prop} {parties : ι → π} {i : ι} {p : π}
    (h : ∀ j k, R (parties j) (parties k)) (hself : R p p) (hfrom : ∀ j ≠ i, R p (parties j))
    (hto : ∀ j ≠ i, R (parties j) p) (j k : ι) : R (Function.update parties i p j) (Function.update parties i p k) := by
  by_cases hj : j = i
  · subst j
    by_cases hk : k = i
    · subst k
      simpa only [Function.update_self] using hself
    · simpa only [Function.update_self, Function.update_of_ne hk] using hfrom k hk
  · by_cases hk : k = i
    · subst k
      simpa only [Function.update_self, Function.update_of_ne hj] using hto j hj
    · simpa only [Function.update_of_ne hj, Function.update_of_ne hk] using h j k

end Parties

end Ak24.Transition
