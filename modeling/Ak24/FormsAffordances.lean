import Ak24.FormsModel
import Ak24.Transition

namespace Ak24.FormsAffordances

open FormsModel Transition

structure Affect where
  name : String
  alsoIncludes : List String
  deriving DecidableEq, Repr

/-- The affects by the numbers of their allocations, which are given out from
`next` on. None is freed while a form lists it. -/
structure Affects where
  record : Nat → Affect
  next : Nat

def Affects.start : Affects := ⟨fun _ => ⟨"", []⟩, 0⟩

def akAffectNew (s : Affects) (name : String) (granted : Bool) : Option Nat × Affects :=
  if !granted then (none, s) else (some s.next, ⟨Function.update s.record s.next ⟨name, []⟩, s.next + 1⟩)

def akAffectAddAlso (s : Affects) (affect : Nat) (otherName : String) (granted : Bool) : Int × Affects :=
  if !granted then (-1, s)
  else
    let record := s.record affect
    (0, { s with
      record := Function.update s.record affect { record with alsoIncludes := record.alsoIncludes ++ [otherName] } })

def affectsOf : Form → List Nat
  | .primitive _ affects => affects
  | .compound _ affects => affects
  | .optional _ affects => affects
  | .repeatable _ affects => affects
  | .struct _ _ affects => affects
  | .list _ affects => affects
  | .map _ _ affects => affects
  | .named _ _ affects => affects

/-- A call with its result; an affect that could not be made is not added. -/
def addAffect (form : Form) (affect : Option Nat) (granted : Bool) : Int × Form :=
  match affect with
  | none => (-1, form)
  | some affect => if !granted then (-1, form) else (0, akFormAddAffect affect form)

/-- The query looks through one name, as `forms_structurally_equal` does. -/
def akFormGetAffect (s : Affects) (form : Form) (name : String) : Option Nat :=
  (affectsOf (unwrap form)).find? fun affect => (s.record affect).name = name

def akFormHasAffect (s : Affects) (form : Form) (name : String) : Bool := (akFormGetAffect s form name).isSome

def formHasStructuralAffordance (form : Form) (affordanceName : String) : Bool :=
  match unwrap form with
  | .optional _ _ => affordanceName = "is_none" || affordanceName = "is_some"
  | .repeatable _ _ =>
    affordanceName = "append" || affordanceName = "pop" || affordanceName = "push" || affordanceName = "rest" ||
      affordanceName = "iterate"
  | .list _ _ => affordanceName = "index" || affordanceName = "iterate" || affordanceName = "length"
  | .map _ _ _ =>
    affordanceName = "get" || affordanceName = "set" || affordanceName = "has" || affordanceName = "iterate"
  | .struct _ fieldNames _ => fieldNames.any fun field => affordanceName = field
  | _ => false

def akFormHasAffordance (s : Affects) (form : Form) (affordanceName : String) : Bool :=
  if akFormHasAffect s form affordanceName then true else formHasStructuralAffordance form affordanceName

/-- The names in the order of the list, with every allocation granted. -/
def akFormGetAffordances (s : Affects) (form : Form) : List String :=
  let current := unwrap form
  let affordances := (affectsOf current).map fun affect => (s.record affect).name
  match current with
  | .optional _ _ => affordances ++ ["is_none", "is_some"]
  | .repeatable _ _ => affordances ++ ["append", "pop", "push", "rest", "iterate"]
  | .list _ _ => affordances ++ ["index", "iterate", "length"]
  | .map _ _ _ => affordances ++ ["get", "set", "has", "iterate"]
  | .struct _ fieldNames _ => affordances ++ fieldNames
  | _ => affordances

section Queries

variable {s : Affects} {form : Form} {name : String} {affect : Nat}

theorem akFormGetAffect_isSome :
    (akFormGetAffect s form name).isSome ↔ ∃ affect ∈ affectsOf (unwrap form), (s.record affect).name = name := by
  simp [akFormGetAffect, List.find?_isSome]

theorem akFormGetAffect_spec (h : akFormGetAffect s form name = some affect) :
    affect ∈ affectsOf (unwrap form) ∧ (s.record affect).name = name :=
  ⟨List.mem_of_find?_eq_some h, by simpa using List.find?_some h⟩

theorem akFormHasAffordance_iff :
    akFormHasAffordance s form name ↔
      (∃ affect ∈ affectsOf (unwrap form), (s.record affect).name = name) ∨
        formHasStructuralAffordance form name := by
  rw [← akFormGetAffect_isSome, akFormHasAffordance, akFormHasAffect]
  cases (akFormGetAffect s form name).isSome <;> simp

theorem mem_akFormGetAffordances :
    name ∈ akFormGetAffordances s form ↔
      (∃ affect ∈ affectsOf (unwrap form), (s.record affect).name = name) ∨
        formHasStructuralAffordance form name := by
  rw [akFormGetAffordances, formHasStructuralAffordance]
  cases unwrap form <;> simp [or_assoc]

end Queries

/-- The query and the enumeration know the same affordances of a form. -/
theorem akFormHasAffordance_iff_mem (s : Affects) (form : Form) (name : String) :
    akFormHasAffordance s form name = true ↔ name ∈ akFormGetAffordances s form :=
  akFormHasAffordance_iff.trans mem_akFormGetAffordances.symm

inductive Call
  | affectNew (name : String) (granted : Bool)
  | addAlso (affect : Nat) (otherName : String) (granted : Bool)
  deriving DecidableEq, Repr

inductive Step : Affects → List (Call × Int) → Affects → Prop
  | affectNew (s : Affects) (name : String) (granted : Bool) :
    Step s [(.affectNew name granted, 0)] (akAffectNew s name granted).2
  | addAlso (s : Affects) (affect : Nat) (otherName : String) (granted : Bool) (h : affect < s.next) :
    Step s [(.addAlso affect otherName granted, (akAffectAddAlso s affect otherName granted).1)]
      (akAffectAddAlso s affect otherName granted).2

/-- A name that a call has added to an affect, and that returned 0. -/
def Included (trace : List (Call × Int)) (affect : Nat) (name : String) : Prop :=
  ∃ granted, (.addAlso affect name granted, 0) ∈ trace

section AlsoIncludes

variable {trace : List (Call × Int)} {s s' : Affects} {events : List (Call × Int)} {form : Form}

theorem alsoIncludes_step (hstep : Step s events s')
    (hfresh : ∀ affect, s.next ≤ affect → (s.record affect).alsoIncludes = []) (affect : Nat) (name : String) :
    name ∈ (s'.record affect).alsoIncludes ↔
      name ∈ (s.record affect).alsoIncludes ∨ Included events affect name := by
  cases hstep with
  | affectNew newName granted =>
      cases granted with
      | false => simp [akAffectNew, Included]
      | true =>
          by_cases ha : affect = s.next
          · subst affect
            simp [akAffectNew, Included, hfresh]
          · simp [akAffectNew, Included, Function.update_of_ne ha]
  | addAlso changed otherName granted h =>
      cases granted with
      | false => simp [akAffectAddAlso, Included]
      | true =>
          by_cases ha : affect = changed
          · subst affect
            simp [akAffectAddAlso, Included]
          · simp [akAffectAddAlso, Included, ha]

theorem next_le_step (hstep : Step s events s') :
    s.next ≤ s'.next ∧ ∀ affect name, Included events affect name → affect < s'.next := by
  cases hstep with
  | affectNew newName granted =>
      refine ⟨?_, fun affect name hname => by simp [Included] at hname⟩
      cases granted <;> simp [akAffectNew]
  | addAlso changed otherName granted h =>
      cases granted with
      | false => exact ⟨le_rfl, fun affect name hname => by simp [Included, akAffectAddAlso] at hname⟩
      | true =>
          refine ⟨le_rfl, fun affect name hname => ?_⟩
          obtain ⟨rfl, -⟩ : affect = changed ∧ name = otherName := by simpa [Included, akAffectAddAlso] using hname
          exact h

theorem alsoIncludes_of_run (hrun : Run Step Affects.start trace s) :
    (∀ affect name, name ∈ (s.record affect).alsoIncludes ↔ Included trace affect name) ∧
      ∀ affect, s.next ≤ affect → (s.record affect).alsoIncludes = [] := by
  apply hrun.invariant (P := fun trace s =>
    (∀ affect name, name ∈ (s.record affect).alsoIncludes ↔ Included trace affect name) ∧
      ∀ affect, s.next ≤ affect → (s.record affect).alsoIncludes = [])
  · exact ⟨fun _ _ => by simp [Affects.start, Included], fun _ _ => rfl⟩
  · rintro trace s events s' ⟨hincluded, hfresh⟩ hstep
    have hadded := alsoIncludes_step hstep hfresh
    obtain ⟨hnext, hbelow⟩ := next_le_step hstep
    refine ⟨fun affect name => ?_, fun affect ha => ?_⟩
    · rw [hadded, hincluded, Included, Included, Included]
      simp only [List.mem_append, exists_or]
    · refine List.eq_nil_iff_forall_not_mem.mpr fun name hname => ?_
      rcases (hadded affect name).mp hname with hold | hnew
      · rw [hfresh affect (hnext.trans ha)] at hold
        cases hold
      · exact absurd (hbelow affect name hnew) (Nat.not_lt.mpr ha)

def structural : Form → List String
  | .optional _ _ => ["is_none", "is_some"]
  | .repeatable _ _ => ["append", "pop", "push", "rest", "iterate"]
  | .list _ _ => ["index", "iterate", "length"]
  | .map _ _ _ => ["get", "set", "has", "iterate"]
  | .struct _ fieldNames _ => fieldNames
  | _ => []

theorem formHasStructuralAffordance_iff {name : String} :
    formHasStructuralAffordance form name ↔ name ∈ structural (unwrap form) := by
  rw [formHasStructuralAffordance]
  cases unwrap form <;> simp [structural, or_assoc]

/-- An affect that `ak_form_get_affect` finds under some name. -/
def Attached (s : Affects) (form : Form) (affect : Nat) : Prop := ∃ name, akFormGetAffect s form name = some affect

/-- What a form should afford: what its kind gives it, the names of its affects,
and the names that these include. -/
def Affords (trace : List (Call × Int)) (s : Affects) (form : Form) (name : String) : Prop :=
  name ∈ structural (unwrap form) ∨
    ∃ affect, Attached s form affect ∧ ((s.record affect).name = name ∨ Included trace affect name)

def Honoured (trace : List (Call × Int)) (s : Affects) (form : Form) : Prop :=
  ∀ name, (akFormHasAffordance s form name = true ↔ Affords trace s form name) ∧
    (name ∈ akFormGetAffordances s form ↔ Affords trace s form name)

theorem exists_attached {name : String} :
    (∃ affect, Attached s form affect ∧ (s.record affect).name = name) ↔
      ∃ affect ∈ affectsOf (unwrap form), (s.record affect).name = name := by
  constructor
  · rintro ⟨affect, ⟨key, hkey⟩, hname⟩
    exact ⟨affect, (akFormGetAffect_spec hkey).1, hname⟩
  · intro h
    obtain ⟨affect, haffect⟩ := Option.isSome_iff_exists.mp (akFormGetAffect_isSome.mpr h)
    exact ⟨affect, ⟨name, haffect⟩, (akFormGetAffect_spec haffect).2⟩

end AlsoIncludes

/-- The queries know no names but those of the kind and of the affects, so what an
affect includes is afforded only where it is one of these. -/
theorem also_includes_honoured_iff (trace : List (Call × Int)) (s : Affects) (hrun : Run Step Affects.start trace s)
    (form : Form) :
    Honoured trace s form ↔ ∀ affect, Attached s form affect → ∀ name ∈ (s.record affect).alsoIncludes,
      name ∈ structural (unwrap form) ∨ ∃ other ∈ affectsOf (unwrap form), (s.record other).name = name := by
  have hincluded := (alsoIncludes_of_run hrun).1
  constructor
  · intro h affect hattached name hname
    have hhas := (h name).1.mpr (.inr ⟨affect, hattached, .inr ((hincluded affect name).mp hname)⟩)
    exact (akFormHasAffordance_iff.mp hhas).symm.imp formHasStructuralAffordance_iff.mp id
  · intro hcond name
    have hboth : akFormHasAffordance s form name = true ↔ Affords trace s form name := by
      rw [akFormHasAffordance_iff, formHasStructuralAffordance_iff, ← exists_attached]
      constructor
      · rintro (⟨affect, hattached, hname⟩ | hkind)
        · exact .inr ⟨affect, hattached, .inl hname⟩
        · exact .inl hkind
      · rintro (hkind | ⟨affect, hattached, hname | hname⟩)
        · exact .inr hkind
        · exact .inl ⟨affect, hattached, hname⟩
        · rw [exists_attached]
          exact (hcond affect hattached name ((hincluded affect name).mpr hname)).symm
    refine ⟨hboth, ?_⟩
    rw [← hboth, mem_akFormGetAffordances, akFormHasAffordance_iff]

/-- An affect of an optional form that includes a name its kind gives it. -/
theorem also_includes_is_some : ∃ trace s form, Run Step Affects.start trace s ∧ Included trace 0 "is_some" ∧
    Attached s form 0 ∧ Honoured trace s form := by
  have r₁ : Run Step Affects.start _ _ := Run.start.next (.affectNew _ "value" true)
  have r₂ := r₁.next (.addAlso _ 0 "is_some" true (by decide))
  let form := akFormAddAffect 0 (akFormNewOptional (.primitive .i32 []))
  refine ⟨_, _, form, r₂, ⟨true, by decide⟩, ⟨"value", by decide⟩, ?_⟩
  refine (also_includes_honoured_iff _ _ r₂ form).mpr fun affect hattached name hname => .inl ?_
  obtain ⟨key, hkey⟩ := hattached
  obtain rfl : affect = 0 := by simpa [form, akFormAddAffect, akFormNewOptional, affectsOf, unwrap] using
    (akFormGetAffect_spec hkey).1
  obtain rfl : name = "is_some" := by simpa [akAffectAddAlso, akAffectNew, Affects.start] using hname
  decide

/-- The affect `append` of a primitive form includes `pop`, and the form does not
afford it. -/
theorem also_includes_ignored : ∃ trace s form, Run Step Affects.start trace s ∧ Included trace 0 "pop" ∧
    akFormGetAffect s form "append" = some 0 ∧ akFormHasAffordance s form "pop" = false ∧
    "pop" ∉ akFormGetAffordances s form := by
  have r₁ : Run Step Affects.start _ _ := Run.start.next (.affectNew _ "append" true)
  have r₂ := r₁.next (.addAlso _ 0 "pop" true (by decide))
  exact ⟨_, _, akFormAddAffect 0 (akFormNewPrimitive .i32), r₂, ⟨true, by decide⟩, by decide, by decide, by decide⟩

end Ak24.FormsAffordances
