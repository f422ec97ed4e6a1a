import Ak24.Transition

namespace Ak24.Monitors

open Transition

/-- An object whose operations run under one lock. An operation has local
variables, and step by step works on the shared state or leaves with a result. -/
structure Monitor (σ Op Locals Result : Type) where
  enter : Op → Locals
  step : σ → Locals → (σ × Locals) ⊕ Result

inductive Event (ι Op Result : Type)
  | called (i : ι) (op : Op)
  | returned (i : ι) (r : Result)
  deriving DecidableEq, Repr

variable {ι σ Op Locals Result : Type}

def called : Event ι Op Result → Option (ι × Op)
  | .called i op => some (i, op)
  | .returned _ _ => none

def returned : Event ι Op Result → Option (ι × Result)
  | .called _ _ => none
  | .returned i r => some (i, r)

inductive Place (Op Locals Result : Type)
  | idle
  | waiting (op : Op)
  | inside (op : Op) (locals : Locals)
  | leaving (r : Result)
  deriving DecidableEq, Repr

structure System (ι σ Op Locals Result : Type) where
  shared : σ
  place : ι → Place Op Locals Result

def System.start (shared : σ) : System ι σ Op Locals Result := ⟨shared, fun _ => .idle⟩

def System.Quiet (s : System ι σ Op Locals Result) : Prop := ∀ i, s.place i = .idle

def Place.Inside : Place Op Locals Result → Prop
  | .inside _ _ => True
  | _ => False

namespace Monitor

variable (m : Monitor σ Op Locals Result)

def Works (x y : σ × Locals) : Prop := m.step x.1 x.2 = .inl y

def Finishes (x : σ × Locals) (r : Result) (s' : σ) : Prop :=
  ∃ locals, Relation.ReflTransGen m.Works x (s', locals) ∧ m.step s' locals = .inr r

def Does (op : Op) (s : σ) (r : Result) (s' : σ) : Prop := m.Finishes (s, m.enter op) r s'

variable {m} in
theorem Finishes.inl {s s' : σ} {locals : Locals} {y : σ × Locals} {r : Result} (hy : m.step s locals = .inl y)
    (h : m.Finishes (s, locals) r s') : m.Finishes y r s' := by
  obtain ⟨final, hworks, hleaves⟩ := h
  rcases Relation.ReflTransGen.cases_head hworks with heq | ⟨z, hz, hrest⟩
  · cases heq
    rw [hy] at hleaves
    cases hleaves
  · obtain rfl : y = z := Sum.inl.inj (hy.symm.trans hz)
    exact ⟨final, hrest, hleaves⟩

variable {m} in
theorem Finishes.inr {s s' : σ} {locals : Locals} {r r' : Result} (hr : m.step s locals = .inr r')
    (h : m.Finishes (s, locals) r s') : r = r' ∧ s' = s := by
  obtain ⟨final, hworks, hleaves⟩ := h
  rcases Relation.ReflTransGen.cases_head hworks with heq | ⟨z, hz, -⟩
  · cases heq
    exact ⟨Sum.inr.inj (hleaves.symm.trans hr), rfl⟩
  · cases hr.symm.trans hz

variable [DecidableEq ι]

inductive Step : System ι σ Op Locals Result → List (Event ι Op Result) → System ι σ Op Locals Result → Prop
  | call (s : System ι σ Op Locals Result) (i : ι) (op : Op) (hi : s.place i = .idle) :
    Step s [.called i op] { s with place := Function.update s.place i (.waiting op) }
  | lock (s : System ι σ Op Locals Result) (i : ι) (op : Op) (hi : s.place i = .waiting op)
    (hfree : ∀ j, ¬(s.place j).Inside) : Step s [] { s with place := Function.update s.place i (.inside op (m.enter op)) }
  | work (s : System ι σ Op Locals Result) (i : ι) (op : Op) (locals locals' : Locals) (shared : σ)
    (hi : s.place i = .inside op locals) (hstep : m.step s.shared locals = .inl (shared, locals')) :
    Step s [] ⟨shared, Function.update s.place i (.inside op locals')⟩
  | unlock (s : System ι σ Op Locals Result) (i : ι) (op : Op) (locals : Locals) (r : Result)
    (hi : s.place i = .inside op locals) (hstep : m.step s.shared locals = .inr r) :
    Step s [] { s with place := Function.update s.place i (.leaving r) }
  | return (s : System ι σ Op Locals Result) (i : ι) (r : Result) (hi : s.place i = .leaving r) :
    Step s [.returned i r] { s with place := Function.update s.place i .idle }

end Monitor

/-- Where a call is on an object that does each operation at once. -/
inductive Call (Op Result : Type)
  | idle
  | pending (op : Op)
  | done (r : Result)
  deriving DecidableEq, Repr

structure Atomic (ι σ Op Result : Type) where
  shared : σ
  call : ι → Call Op Result
  log : List (ι × Op × Result)

def Atomic.start (shared : σ) : Atomic ι σ Op Result := ⟨shared, fun _ => .idle, []⟩

inductive History (does : Op → σ → Result → σ → Prop) (s₀ : σ) : List (ι × Op × Result) → σ → Prop
  | nil : History does s₀ [] s₀
  | snoc {log : List (ι × Op × Result)} {s s' : σ} {op : Op} {r : Result} (i : ι) :
    History does s₀ log s → does op s r s' → History does s₀ (log ++ [(i, op, r)]) s'

inductive AtomicStep [DecidableEq ι] (does : Op → σ → Result → σ → Prop) :
    Atomic ι σ Op Result → List (Event ι Op Result) → Atomic ι σ Op Result → Prop
  | none (t : Atomic ι σ Op Result) : AtomicStep does t [] t
  | call (t : Atomic ι σ Op Result) (i : ι) (op : Op) (hi : t.call i = .idle) :
    AtomicStep does t [.called i op] { t with call := Function.update t.call i (.pending op) }
  | commit (t : Atomic ι σ Op Result) (i : ι) (op : Op) (r : Result) (shared : σ) (hi : t.call i = .pending op)
    (hdoes : does op t.shared r shared) :
    AtomicStep does t [] ⟨shared, Function.update t.call i (.done r), t.log ++ [(i, op, r)]⟩
  | return (t : Atomic ι σ Op Result) (i : ι) (r : Result) (hi : t.call i = .done r) :
    AtomicStep does t [.returned i r] { t with call := Function.update t.call i .idle }

section Atomicity

variable [DecidableEq ι] {m : Monitor σ Op Locals Result} {s s' : System ι σ Op Locals Result}
  {t : Atomic ι σ Op Result} {events : List (Event ι Op Result)}

def Place.call : Place Op Locals Result → Call Op Result
  | .idle => .idle
  | .waiting op => .pending op
  | .inside op _ => .pending op
  | .leaving r => .done r

/-- The atomic object is where the lock was taken; what has been done since is
the work of the one operation inside. -/
structure Matches (m : Monitor σ Op Locals Result) (s : System ι σ Op Locals Result) (t : Atomic ι σ Op Result) :
    Prop where
  calls : t.call = fun i => (s.place i).call
  single : ∀ i j, (s.place i).Inside → (s.place j).Inside → i = j
  free : (∀ i, ¬(s.place i).Inside) → t.shared = s.shared
  works : ∀ i op locals, s.place i = .inside op locals →
    Relation.ReflTransGen m.Works (t.shared, m.enter op) (s.shared, locals)

theorem Matches.update (h : Matches m s t) (i : ι) (p : Place Op Locals Result) :
    Function.update t.call i p.call = fun j => (Function.update s.place i p j).call := by
  rw [h.calls]
  funext j
  by_cases hj : j = i
  · rw [hj, Function.update_self, Function.update_self]
  · rw [Function.update_of_ne hj, Function.update_of_ne hj]

theorem update_inside {place : ι → Place Op Locals Result} {i j : ι} {p : Place Op Locals Result} (hp : ¬p.Inside)
    (h : (Function.update place i p j).Inside) : j ≠ i ∧ (place j).Inside := by
  by_cases hj : j = i
  · rw [hj, Function.update_self] at h
    exact absurd h hp
  · rw [Function.update_of_ne hj] at h
    exact ⟨hj, h⟩

theorem Matches.outside (h : Matches m s t) {i : ι} {p : Place Op Locals Result} (hi : ¬(s.place i).Inside)
    (hp : ¬p.Inside) :
    Matches m { s with place := Function.update s.place i p } { t with call := Function.update t.call i p.call } where
  calls := h.update i p
  single := by
    intro j k hj hk
    exact h.single j k (update_inside hp hj).2 (update_inside hp hk).2
  free := by
    intro hfree
    refine h.free fun j hj => hfree j ?_
    have hji : j ≠ i := by
      rintro rfl
      exact hi hj
    show (Function.update s.place i p j).Inside
    rwa [Function.update_of_ne hji]
  works := by
    intro j op locals hj
    have hinside : (Function.update s.place i p j).Inside := by
      show (Function.update s.place i p j).Inside
      rw [show Function.update s.place i p j = _ from hj]
      trivial
    have hji := (update_inside hp hinside).1
    refine h.works j op locals ?_
    rw [← hj]
    exact (Function.update_of_ne hji _ _).symm

theorem Matches.same_call (h : Matches m s t) {i : ι} {p : Place Op Locals Result} (hp : p.call = (s.place i).call) :
    t.call = fun j => (Function.update s.place i p j).call := by
  rw [← h.update i p, hp, h.calls]
  exact (Function.update_eq_self i _).symm

theorem Matches.lock (h : Matches m s t) {i : ι} {op : Op} (hi : s.place i = .waiting op)
    (hfree : ∀ j, ¬(s.place j).Inside) :
    Matches m { s with place := Function.update s.place i (.inside op (m.enter op)) } t where
  calls := h.same_call (by rw [hi]; rfl)
  single := by
    have honly : ∀ j, (Function.update s.place i (.inside op (m.enter op)) j).Inside → j = i := by
      intro j hj
      by_contra hne
      rw [Function.update_of_ne hne] at hj
      exact hfree j hj
    exact fun j k hj hk => (honly j hj).trans (honly k hk).symm
  free := by
    intro hnone
    refine absurd ?_ (hnone i)
    show (Function.update s.place i (.inside op (m.enter op)) i).Inside
    rw [Function.update_self]
    trivial
  works := by
    intro j op' locals hj
    by_cases hji : j = i
    · have hplace : Function.update s.place i (.inside op (m.enter op)) j = .inside op' locals := hj
      rw [hji, Function.update_self] at hplace
      cases hplace
      rw [h.free hfree]
    · refine absurd ?_ (hfree j)
      have hplace : Function.update s.place i (.inside op (m.enter op)) j = .inside op' locals := hj
      rw [Function.update_of_ne hji] at hplace
      rw [hplace]
      trivial

theorem Place.inside_of {p : Place Op Locals Result} {op : Op} {locals : Locals} (h : p = .inside op locals) :
    p.Inside := by
  rw [h]
  trivial

theorem Matches.work (h : Matches m s t) {i : ι} {op : Op} {locals locals' : Locals} {shared : σ}
    (hi : s.place i = .inside op locals) (hstep : m.step s.shared locals = .inl (shared, locals')) :
    Matches m ⟨shared, Function.update s.place i (.inside op locals')⟩ t := by
  have hinside : ∀ j, (Function.update s.place i (.inside op locals') j).Inside → (s.place j).Inside := by
    intro j hj
    by_cases hji : j = i
    · rw [hji]
      exact Place.inside_of hi
    · rwa [Function.update_of_ne hji] at hj
  refine ⟨h.same_call (by rw [hi]; rfl), fun j k hj hk => h.single j k (hinside j hj) (hinside k hk), ?_, ?_⟩
  · intro hnone
    refine absurd ?_ (hnone i)
    show (Function.update s.place i (.inside op locals') i).Inside
    rw [Function.update_self]
    trivial
  · intro j op' l hj
    have hplace : Function.update s.place i (.inside op locals') j = .inside op' l := hj
    obtain rfl : j = i := h.single j i (hinside j (Place.inside_of hplace)) (Place.inside_of hi)
    rw [Function.update_self] at hplace
    cases hplace
    exact (h.works j op locals hi).tail hstep

theorem Matches.unlock (h : Matches m s t) {i : ι} {op : Op} {locals : Locals} {r : Result}
    (hi : s.place i = .inside op locals) :
    Matches m { s with place := Function.update s.place i (.leaving r) }
      ⟨s.shared, Function.update t.call i (.done r), t.log ++ [(i, op, r)]⟩ := by
  have hnone : ∀ j, ¬(Function.update s.place i (.leaving r) j).Inside := by
    intro j hj
    obtain ⟨hne, hinside⟩ := update_inside (p := .leaving r) id hj
    exact hne (h.single j i hinside (Place.inside_of hi))
  exact ⟨h.update i (.leaving r), fun j _ hj _ => absurd hj (hnone j), fun _ => rfl,
    fun j _ _ hj => absurd (Place.inside_of hj) (hnone j)⟩

omit [DecidableEq ι] in
theorem Matches.call_of (h : Matches m s t) {i : ι} {p : Place Op Locals Result} (hi : s.place i = p) :
    t.call i = p.call := by
  rw [h.calls]
  exact congrArg Place.call hi

theorem Matches.step (h : Matches m s t) (hs : m.Step s events s') :
    ∃ t', AtomicStep m.Does t events t' ∧ Matches m s' t' := by
  cases hs with
  | call i op hi =>
      exact ⟨_, .call t i op (h.call_of hi), h.outside (by rw [hi]; exact id) (p := .waiting op) id⟩
  | lock i op hi hfree => exact ⟨t, .none t, h.lock hi hfree⟩
  | work i op locals locals' shared hi hstep => exact ⟨t, .none t, h.work hi hstep⟩
  | unlock i op locals r hi hstep =>
      exact ⟨_, .commit t i op r s.shared (h.call_of hi) ⟨locals, h.works i op locals hi, hstep⟩, h.unlock hi⟩
  | «return» i r hi =>
      exact ⟨_, .return t i r (h.call_of hi), h.outside (by rw [hi]; exact id) (p := .idle) id⟩

/-- The lock makes each operation happen at once, between its call and its return. -/
theorem run_atomic {s₀ : σ} {trace : List (Event ι Op Result)} (h : Run m.Step (System.start s₀) trace s) :
    ∃ t, Run (AtomicStep m.Does) (Atomic.start s₀) trace t ∧ Matches m s t := by
  have hinit : Matches m (System.start s₀ : System ι σ Op Locals Result) (Atomic.start s₀) :=
    ⟨rfl, fun _ _ hi => absurd hi id, fun _ => rfl, fun _ _ _ hi => by cases hi⟩
  obtain ⟨t, ht, hmatches⟩ := h.simulate (f := id) hinit fun _ _ t events _ _ hr hs => by
    rw [List.map_id]
    exact hr.step hs
  rw [List.map_id] at ht
  exact ⟨t, ht, hmatches⟩

end Atomicity

section Tables

variable [DecidableEq ι] {α : Type} {f : ι → Option α} {l : List (ι × α)} {i : ι} {x : α}

/-- The entries of a table that is empty but for finitely many places. -/
structure Lists (f : ι → Option α) (l : List (ι × α)) : Prop where
  nodup : l.Nodup
  mem : ∀ i x, (i, x) ∈ l ↔ f i = some x

theorem Lists.insert (h : Lists f l) (hi : f i = none) : Lists (Function.update f i (some x)) ((i, x) :: l) where
  nodup := by
    refine List.nodup_cons.mpr ⟨fun hmem => ?_, h.nodup⟩
    rw [h.mem, hi] at hmem
    cases hmem
  mem := by
    intro j y
    rw [List.mem_cons, h.mem, Prod.mk.injEq]
    by_cases hj : j = i
    · rw [hj, Function.update_self, hi]
      constructor
      · rintro (⟨-, rfl⟩ | hnone)
        · rfl
        · cases hnone
      · rintro ⟨⟩
        exact .inl ⟨rfl, rfl⟩
    · rw [Function.update_of_ne hj]
      simp [hj]

theorem Lists.erase (h : Lists f l) (hi : f i = some x) :
    ∃ l', l.Perm ((i, x) :: l') ∧ Lists (Function.update f i none) l' := by
  obtain ⟨pre, post, rfl⟩ := List.append_of_mem ((h.mem i x).mpr hi)
  have hperm : (pre ++ (i, x) :: post).Perm ((i, x) :: (pre ++ post)) := List.perm_middle
  obtain ⟨hnew, hnodup⟩ := List.nodup_cons.mp (hperm.nodup_iff.mp h.nodup)
  refine ⟨pre ++ post, hperm, hnodup, fun j y => ?_⟩
  have hmem := h.mem j y
  rw [hperm.mem_iff, List.mem_cons, Prod.mk.injEq] at hmem
  by_cases hj : j = i
  · rw [hj, Function.update_self]
    rw [hj] at hmem
    constructor
    · intro hold
      obtain rfl : x = y := Option.some.inj (hi.symm.trans (hmem.mp (.inr hold)))
      exact absurd hold hnew
    · rintro ⟨⟩
  · rw [Function.update_of_ne hj]
    simpa [hj] using hmem

theorem Lists.keep (h : Lists f l) {o : Option α} (ho : f i = o) : Lists (Function.update f i o) l := by
  rw [← ho, Function.update_eq_self]
  exact h

end Tables

section Histories

variable [DecidableEq ι] {does : Op → σ → Result → σ → Prop} {s₀ s : σ} {t t' : Atomic ι σ Op Result}
  {trace events : List (Event ι Op Result)} {log : List (ι × Op × Result)}

def Call.op : Call Op Result → Option Op
  | .pending op => some op
  | _ => none

def Call.result : Call Op Result → Option Result
  | .done r => some r
  | _ => none

/-- The calls and the returns of a trace are those of the log, but for the calls
that have not been done and the results that have not been returned. -/
structure Recorded (does : Op → σ → Result → σ → Prop) (s₀ : σ) (trace : List (Event ι Op Result))
    (t : Atomic ι σ Op Result) : Prop where
  history : History does s₀ t.log t.shared
  calls : ∃ pending, Lists (fun i => (t.call i).op) pending ∧
    (trace.filterMap called).Perm (t.log.map (fun e => (e.1, e.2.1)) ++ pending)
  returns : ∃ done, Lists (fun i => (t.call i).result) done ∧
    (trace.filterMap returned ++ done).Perm (t.log.map fun e => (e.1, e.2.2))

theorem update_comp {α β : Type} (f : α → β) (call : ι → α) (i : ι) (c : α) :
    (fun j => f (Function.update call i c j)) = Function.update (fun j => f (call j)) i (f c) := by
  funext j
  by_cases hj : j = i
  · rw [hj, Function.update_self, Function.update_self]
  · rw [Function.update_of_ne hj, Function.update_of_ne hj]

theorem Recorded.step (h : Recorded does s₀ trace t) (hs : AtomicStep does t events t') :
    Recorded does s₀ (trace ++ events) t' := by
  obtain ⟨pending, hpending, hcalls⟩ := h.calls
  obtain ⟨done, hdone, hreturns⟩ := h.returns
  cases hs with
  | none =>
      rw [List.append_nil]
      exact h
  | call i op hi =>
      refine ⟨h.history, ⟨(i, op) :: pending, ?_, ?_⟩, ⟨done, ?_, ?_⟩⟩
      · rw [update_comp]
        exact hpending.insert (by rw [hi]; rfl)
      · rw [List.filterMap_append]
        refine (hcalls.append_right _).trans ?_
        rw [List.append_assoc]
        exact List.Perm.append_left _ List.perm_append_comm
      · rw [update_comp]
        exact hdone.keep (by rw [hi]; rfl)
      · have hnone : [Event.called i op].filterMap returned = ([] : List (ι × Result)) := rfl
        rw [List.filterMap_append, hnone, List.append_nil]
        exact hreturns
  | commit i op r shared hi hdoes =>
      obtain ⟨rest, hperm, hrest⟩ := hpending.erase (i := i) (x := op) (by rw [hi]; rfl)
      rw [List.append_nil]
      refine ⟨h.history.snoc i hdoes, ⟨rest, ?_, ?_⟩, ⟨(i, r) :: done, ?_, ?_⟩⟩
      · rw [update_comp]
        exact hrest
      · rw [List.map_append, List.append_assoc]
        exact hcalls.trans (hperm.append_left _)
      · rw [update_comp]
        exact hdone.insert (by rw [hi]; rfl)
      · rw [List.map_append]
        exact List.perm_middle.trans ((hreturns.cons (i, r)).trans (@List.perm_append_comm _ [(i, r)] _))
  | «return» i r hi =>
      obtain ⟨rest, hperm, hrest⟩ := hdone.erase (i := i) (x := r) (by rw [hi]; rfl)
      refine ⟨h.history, ⟨pending, ?_, ?_⟩, ⟨rest, ?_, ?_⟩⟩
      · rw [update_comp]
        exact hpending.keep (by rw [hi]; rfl)
      · have hnone : [Event.returned i r].filterMap called = ([] : List (ι × Op)) := rfl
        rw [List.filterMap_append, hnone, List.append_nil]
        exact hcalls
      · rw [update_comp]
        exact hrest
      · rw [List.filterMap_append, List.append_assoc]
        exact (hperm.symm.append_left _).trans hreturns

theorem run_recorded (h : Run (AtomicStep does) (Atomic.start s₀) trace t) : Recorded does s₀ trace t := by
  refine h.invariant (P := Recorded does s₀) ?_ fun _ _ _ _ hr hs => hr.step hs
  have hnone : ∀ {α : Type}, Lists (fun _ : ι => (none : Option α)) [] := ⟨List.nodup_nil, by simp⟩
  exact ⟨.nil, ⟨[], hnone, .nil⟩, ⟨[], hnone, .nil⟩⟩

omit [DecidableEq ι] in
theorem Lists.nil_of {α : Type} {f : ι → Option α} {l : List (ι × α)} (h : Lists f l) (hf : ∀ i, f i = none) :
    l = [] := by
  rw [List.eq_nil_iff_forall_not_mem]
  rintro ⟨i, x⟩ hmem
  rw [h.mem, hf i] at hmem
  cases hmem

end Histories

/-- Once every call has returned, the object has done the calls one after the
other in some order, and each has returned what it did there. -/
theorem run_history [DecidableEq ι] {m : Monitor σ Op Locals Result} {s₀ : σ} {s : System ι σ Op Locals Result}
    {trace : List (Event ι Op Result)} (h : Run m.Step (System.start s₀) trace s) (hquiet : s.Quiet) :
    ∃ log, History m.Does s₀ log s.shared ∧ (trace.filterMap called).Perm (log.map fun e => (e.1, e.2.1)) ∧
      (trace.filterMap returned).Perm (log.map fun e => (e.1, e.2.2)) := by
  obtain ⟨t, hrun, hmatches⟩ := run_atomic h
  obtain ⟨hhistory, ⟨pending, hpending, hcalls⟩, ⟨done, hdone, hreturns⟩⟩ := run_recorded hrun
  have hidle : ∀ i, t.call i = .idle := fun i => hmatches.call_of (hquiet i)
  rw [hpending.nil_of fun i => by rw [hidle i]; rfl, List.append_nil] at hcalls
  rw [hdone.nil_of fun i => by rw [hidle i]; rfl, List.append_nil] at hreturns
  have hshared := hmatches.free fun i hi => by
    rw [hquiet i] at hi
    exact hi
  rw [hshared] at hhistory
  exact ⟨t.log, hhistory, hcalls, hreturns⟩

end Ak24.Monitors
