import Ak24.FormsModel
import Ak24.Transition

namespace Ak24.FormsAffects

open Objects FormsModel Transition

/-- The forms an application holds, the affects by their names, and those of them
that were added to a form. -/
structure World where
  forms : Heap Form
  affects : Heap String
  added : Finset Nat

inductive Event
  | freedForm (form : Nat)
  | freedAffect (affect : Nat)
  deriving DecidableEq, Repr

inductive Constructor
  | primitive (type : PrimitiveType)
  | compound (parts : List Nat)
  | optional (inner : Nat)
  | repeatable (inner : Nat)
  | struct (pattern : Nat) (fieldNames : List String)
  | list (elementType : Nat)
  | map (keyType : PrimitiveType) (valueType : Nat)
  | named (name : String) (form : Nat)
  deriving DecidableEq, Repr

def Constructor.build (forms : Heap Form) : Constructor → Option Form
  | .primitive type => some (akFormNewPrimitive type)
  | .compound parts => (parts.mapM forms.cells).map akFormNewCompound
  | .optional inner => (forms.cells inner).map akFormNewOptional
  | .repeatable inner => (forms.cells inner).map akFormNewRepeatable
  | .struct pattern fieldNames => (forms.cells pattern).map (akFormNewStruct · fieldNames)
  | .list elementType => (forms.cells elementType).map akFormNewList
  | .map keyType valueType => (forms.cells valueType).map (akFormNewMap keyType)
  | .named name form => (forms.cells form).map (akFormNewNamed name)

def freeAll (affects : Heap String) (freed : List Nat) : Heap String := freed.foldl Heap.free affects

/-- The calls of one thread. A form is freed while it is there, and an affect is
added once. -/
inductive Step : World → List Event → World → Prop
  | construct (s : World) (k : Constructor) (f : Form) (hk : k.build s.forms = some f) :
    Step s [] { s with forms := s.forms.alloc f }
  | affectNew (s : World) (name : String) : Step s [] { s with affects := s.affects.alloc name }
  | addAffect (s : World) (i a : Nat) (f : Form) (hi : s.forms.cells i = some f) (ha : s.affects.cells a ≠ none)
    (hadded : a ∉ s.added) :
    Step s [] { s with forms := s.forms.store i (akFormAddAffect a f), added := insert a s.added }
  | free (s : World) (i : Nat) (f : Form) (hi : s.forms.cells i = some f) :
    Step s (.freedForm i :: (akFormFree f).map .freedAffect)
      { s with forms := s.forms.free i, affects := freeAll s.affects (akFormFree f) }

def World.empty : World := ⟨.empty Form, .empty String, ∅⟩

/-- A form is freed only when the affects in it are all different and no other
form has one of them. -/
def FreesUnshared (s : World) (events : List Event) : Prop :=
  ∀ i f, .freedForm i ∈ events → s.forms.cells i = some f →
    (akFormFree f).Nodup ∧ ∀ j g, j ≠ i → s.forms.cells j = some g → ∀ a ∈ akFormFree f, a ∉ akFormFree g

/-- An affect is freed at most once, and no form that is there has a freed one. -/
def Owned (trace : List Event) (s : World) : Prop :=
  (∀ a, trace.count (.freedAffect a) ≤ 1) ∧
    ∀ i f, s.forms.cells i = some f → ∀ a ∈ akFormFree f, .freedAffect a ∉ trace

section Lists

variable {forms : Heap Form} {a : Nat}

theorem mem_freeParts {parts : List Form} : a ∈ freeParts parts ↔ ∃ part ∈ parts, a ∈ akFormFree part := by
  induction parts with
  | nil => simp [freeParts]
  | cons part parts ih => simp [freeParts, ih]

theorem mem_addAffect (f : Form) (b : Nat) : a ∈ akFormFree (akFormAddAffect b f) ↔ a ∈ akFormFree f ∨ a = b := by
  cases f <;> simp [akFormAddAffect, akFormFree, or_assoc]

theorem mapM_cells {parts : List Nat} {fs : List Form} (h : parts.mapM forms.cells = some fs) {f : Form} (hf : f ∈ fs) :
    ∃ i, forms.cells i = some f := by
  induction parts generalizing fs with
  | nil =>
      cases h
      cases hf
  | cons i parts ih =>
      simp only [List.mapM_cons, Option.bind_eq_bind, Option.bind_eq_some_iff, Option.pure_def, Option.some.injEq] at h
      obtain ⟨g, hg, gs, hgs, rfl⟩ := h
      rcases List.mem_cons.mp hf with rfl | hf
      · exact ⟨i, hg⟩
      · exact ih hgs hf

theorem build_affects {k : Constructor} {f : Form} (h : k.build forms = some f) (ha : a ∈ akFormFree f) :
    ∃ i g, forms.cells i = some g ∧ a ∈ akFormFree g := by
  cases k with
  | primitive type =>
      cases h
      cases ha
  | compound parts =>
      obtain ⟨fs, hfs, rfl⟩ := Option.map_eq_some_iff.mp h
      simp only [akFormNewCompound, akFormFree, cloneParts_eq, List.append_nil, mem_freeParts] at ha
      obtain ⟨g, hg, ha⟩ := ha
      obtain ⟨i, hi⟩ := mapM_cells hfs hg
      exact ⟨i, g, hi, ha⟩
  | optional i | repeatable i | struct i | list i | map _ i | named _ i =>
      obtain ⟨g, hg, rfl⟩ := Option.map_eq_some_iff.mp h
      refine ⟨_, g, hg, ?_⟩
      simpa [akFormNewOptional, akFormNewRepeatable, akFormNewStruct, akFormNewList, akFormNewMap, akFormNewNamed,
        akFormFree, akFormClone_eq] using ha

theorem freeAll_of_mem {affects : Heap String} {freed : List Nat} (h : affects.cells a = none ∨ a ∈ freed) :
    (freeAll affects freed).cells a = none := by
  induction freed generalizing affects with
  | nil => simpa [freeAll] using h
  | cons b freed ih =>
      apply ih
      by_cases hab : a = b
      · subst a
        exact .inl (Heap.free_self _ _)
      · rw [Heap.free_of_ne hab]
        simpa [hab] using h

theorem freeAll_next (affects : Heap String) (freed : List Nat) : (freeAll affects freed).next = affects.next := by
  induction freed generalizing affects with
  | nil => rfl
  | cons b freed ih => exact ih (affects.free b)

end Lists

structure WorldOk (trace : List Event) (s : World) : Prop where
  owned : Owned trace s
  freed : ∀ a, .freedAffect a ∈ trace → s.affects.cells a = none ∧ a < s.affects.next
  made : ∀ i f, s.forms.cells i = some f → ∀ a ∈ akFormFree f, a < s.affects.next

theorem count_freed (l : List Nat) (a i : Nat) :
    (.freedForm i :: l.map .freedAffect : List Event).count (.freedAffect a) = l.count a := by
  rw [List.count_cons_of_ne (by simp)]
  exact List.count_map_of_injective l Event.freedAffect (fun _ _ h => by cases h; rfl) a

theorem WorldOk.free {trace : List Event} {s : World} {i : Nat} {f : Form} (h : WorldOk trace s)
    (hi : s.forms.cells i = some f) (hguard : FreesUnshared s (.freedForm i :: (akFormFree f).map .freedAffect)) :
    WorldOk (trace ++ .freedForm i :: (akFormFree f).map .freedAffect)
      { s with forms := s.forms.free i, affects := freeAll s.affects (akFormFree f) } := by
  obtain ⟨hnodup, hother⟩ := hguard i f List.mem_cons_self hi
  have hmem : ∀ a, .freedAffect a ∈ trace ++ .freedForm i :: (akFormFree f).map .freedAffect ↔
      .freedAffect a ∈ trace ∨ a ∈ akFormFree f := by
    intro a
    simp
  refine ⟨⟨fun a => ?_, fun j g hj a ha hfreed => ?_⟩, fun a ha => ?_, fun j g hj a ha => ?_⟩
  · rw [List.count_append, count_freed]
    by_cases ha : a ∈ akFormFree f
    · have hbefore := List.count_eq_zero_of_not_mem (h.owned.2 i f hi a ha)
      have hnow := List.nodup_iff_count_le_one.mp hnodup a
      omega
    · have hnow := List.count_eq_zero_of_not_mem ha
      have hbefore := h.owned.1 a
      omega
  · obtain ⟨hji, hj⟩ := Heap.free_eq_some hj
    rcases (hmem a).mp hfreed with hold | hnew
    · exact h.owned.2 j g hj a ha hold
    · exact hother j g hji hj a hnew ha
  · rw [freeAll_next]
    rcases (hmem a).mp ha with hold | hnew
    · exact ⟨freeAll_of_mem (.inl (h.freed a hold).1), (h.freed a hold).2⟩
    · exact ⟨freeAll_of_mem (.inr hnew), h.made i f hi a hnew⟩
  · rw [freeAll_next]
    exact h.made j g (Heap.free_eq_some hj).2 a ha

theorem WorldOk.construct {trace : List Event} {s : World} {k : Constructor} {f : Form} (h : WorldOk trace s)
    (hk : k.build s.forms = some f) : WorldOk trace { s with forms := s.forms.alloc f } := by
  -- an affect of the new form is one of a form it is made of
  have hold : ∀ j g, (s.forms.alloc f).cells j = some g → ∀ a ∈ akFormFree g,
      ∃ j' g', s.forms.cells j' = some g' ∧ a ∈ akFormFree g' := by
    intro j g hj a ha
    rcases Heap.alloc_eq_some hj with ⟨-, rfl⟩ | hj
    · exact build_affects hk ha
    · exact ⟨j, g, hj, ha⟩
  refine ⟨⟨h.owned.1, fun j g hj a ha => ?_⟩, h.freed, fun j g hj a ha => ?_⟩
  · obtain ⟨j', g', hj', ha'⟩ := hold j g hj a ha
    exact h.owned.2 j' g' hj' a ha'
  · obtain ⟨j', g', hj', ha'⟩ := hold j g hj a ha
    exact h.made j' g' hj' a ha'

theorem WorldOk.affectNew {trace : List Event} {s : World} (h : WorldOk trace s) (name : String) :
    WorldOk trace { s with affects := s.affects.alloc name } := by
  refine ⟨h.owned, fun a ha => ?_, fun i f hi a ha => ?_⟩
  · obtain ⟨hnone, hlt⟩ := h.freed a ha
    exact ⟨by rw [Heap.alloc_of_ne hlt.ne, hnone], hlt.trans (Nat.lt_succ_self _)⟩
  · exact (h.made i f hi a ha).trans (Nat.lt_succ_self _)

theorem WorldOk.addAffect {trace : List Event} {s : World} {i a : Nat} {f : Form} (h : WorldOk trace s)
    (hi : s.forms.cells i = some f) (ha : s.affects.cells a ≠ none) (added : Finset Nat) :
    WorldOk trace { s with forms := s.forms.store i (akFormAddAffect a f), added } := by
  -- an affect of a form is an old one or the one that was added, which is there
  have hcases : ∀ j g, (s.forms.store i (akFormAddAffect a f)).cells j = some g → ∀ b ∈ akFormFree g,
      b = a ∨ ∃ g', s.forms.cells j = some g' ∧ b ∈ akFormFree g' := by
    intro j g hj b hb
    by_cases hji : j = i
    · subst j
      rw [Heap.store_self hi] at hj
      cases hj
      rcases (mem_addAffect f a).mp hb with hold | hnew
      · exact .inr ⟨f, hi, hold⟩
      · exact .inl hnew
    · rw [Heap.store_of_ne hji] at hj
      exact .inr ⟨g, hj, hb⟩
  obtain ⟨name, hname⟩ := Option.ne_none_iff_exists'.mp ha
  refine ⟨⟨h.owned.1, fun j g hj b hb => ?_⟩, h.freed, fun j g hj b hb => ?_⟩
  · rcases hcases j g hj b hb with rfl | ⟨g', hj', hb'⟩
    · intro hfreed
      exact ha (h.freed b hfreed).1
    · exact h.owned.2 j g' hj' b hb'
  · rcases hcases j g hj b hb with rfl | ⟨g', hj', hb'⟩
    · exact s.affects.lt_next hname
    · exact h.made j g' hj' b hb'

theorem WorldOk.step {trace events : List Event} {s s' : World} (h : WorldOk trace s)
    (hs : guarded FreesUnshared Step s events s') : WorldOk (trace ++ events) s' := by
  obtain ⟨hstep, hguard⟩ := hs
  cases hstep with
  | construct k f hk => simpa using h.construct hk
  | affectNew name => simpa using h.affectNew name
  | addAffect i a f hi ha hadded => simpa using h.addAffect hi ha _
  | free i f hi => exact h.free hi hguard

/-- Freeing a form whose affects are shared breaks the ownership. -/
theorem freesUnshared_of_owned {trace events : List Event} {s s' : World} (hs : Step s events s')
    (h : Owned (trace ++ events) s') : FreesUnshared s events := by
  cases hs with
  | construct | affectNew | addAffect => nofun
  | free i f hi =>
      intro i' f' hmem hi'
      obtain rfl : i' = i := by simpa using hmem
      rw [hi] at hi'
      cases hi'
      refine ⟨List.nodup_iff_count_le_one.mpr fun a => ?_, fun j g hj hg a ha hshared => ?_⟩
      · have honce := h.1 a
        rw [List.count_append, count_freed] at honce
        omega
      · have hkept : (s.forms.free i').cells j = some g := by rwa [Heap.free_of_ne hj]
        exact h.2 j g hkept a hshared (by simp [ha])

/-- In a run that frees no form with shared affects every affect has one owner,
and a further step keeps it so exactly when it frees no such form either. -/
theorem affects_owned {trace : List Event} {s : World} (hrun : Run (guarded FreesUnshared Step) World.empty trace s) :
    Owned trace s ∧ ∀ events s', Step s events s' → (Owned (trace ++ events) s' ↔ FreesUnshared s events) := by
  have hok : WorldOk trace s := by
    apply hrun.invariant
    · exact ⟨⟨by simp, nofun⟩, nofun, nofun⟩
    · exact fun _ _ _ _ h hs => h.step hs
  refine ⟨hok.owned, fun events s' hstep => ?_⟩
  constructor
  · exact freesUnshared_of_owned hstep
  · exact fun hguard => (hok.step ⟨hstep, hguard⟩).owned

/-- A form made before its argument got an affect does not share it. -/
theorem unshared_affect_freed_once : ∃ trace s, Run (guarded FreesUnshared Step) World.empty trace s ∧
    trace = [.freedForm 0, .freedAffect 0] ∧ Owned trace s := by
  have r₁ : Run (guarded FreesUnshared Step) World.empty _ _ :=
    .next .start ⟨.construct _ (.primitive .i32) _ rfl, nofun⟩
  have r₂ := r₁.next ⟨.construct _ (.optional 0) _ rfl, nofun⟩
  have r₃ := r₂.next ⟨.affectNew _ "append", nofun⟩
  have r₄ := r₃.next ⟨.addAffect _ 0 0 _ rfl nofun (by simp [World.empty]), nofun⟩
  have r₅ := r₄.next ⟨.free _ 0 _ rfl, by
    rintro i f hi hf
    obtain rfl : i = 0 := by simpa using hi
    cases hf
    refine ⟨by decide, fun j g hj hg a ha => ?_⟩
    have hlt : j < 2 := Heap.lt_next _ hg
    obtain rfl : j = 1 := by omega
    cases hg
    nofun⟩
  exact ⟨_, _, r₅, rfl, (affects_owned r₅).1⟩

/-- A form with an affect is used to make another, and both are freed. -/
theorem shared_affect_freed_twice : ∃ trace s trace' s', Run Step World.empty trace s ∧ Run Step World.empty trace' s' ∧
    (∃ f a, s.forms.cells 1 = some f ∧ a ∈ akFormFree f ∧ .freedAffect a ∈ trace) ∧
    trace'.count (.freedAffect 0) = 2 := by
  have r₁ : Run Step World.empty _ _ := .next .start (.construct _ (.primitive .i32) _ rfl)
  have r₂ := r₁.next (.affectNew _ "append")
  have r₃ := r₂.next (.addAffect _ 0 0 _ rfl nofun (by simp [World.empty]))
  have r₄ := r₃.next (.construct _ (.optional 0) _ rfl)
  have r₅ := r₄.next (.free _ 0 _ rfl)
  have r₆ := r₅.next (.free _ 1 _ rfl)
  exact ⟨_, _, _, _, r₅, r₆, ⟨_, 0, rfl, by decide, by decide⟩, by decide⟩

end Ak24.FormsAffects
