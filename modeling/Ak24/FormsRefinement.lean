import Ak24.FormsClone

namespace Ak24.FormsRefinement

open FormsAffordances (Affects affectsOf)
open FormsClone FormsMemory HeapValues Objects
open FormsModel (Form PrimitiveType unwrap)

mutual

def ofForm : Form → FormTree
  | .primitive type affects => .node none (.primitive type) affects
  | .compound parts affects => .node none (.compound (ofParts parts)) affects
  | .optional inner affects => .node none (.optional (ofForm inner)) affects
  | .repeatable inner affects => .node none (.repeatable (ofForm inner)) affects
  | .struct pattern fieldNames affects => .node none (.struct (ofForm pattern) fieldNames) affects
  | .list elementType affects => .node none (.list (ofForm elementType)) affects
  | .map keyType valueType affects => .node none (.map keyType (ofForm valueType)) affects
  | .named name actualForm affects => .node (some name) (.named (ofForm actualForm)) affects

def ofParts : List Form → List FormTree
  | [] => []
  | part :: parts => ofForm part :: ofParts parts

end

def Represents (h : Heap Node) (depth n : Nat) (form : Form) : Prop :=
  value formTree h.cells depth n = some (ofForm form)

inductive DataOf (h : Heap Node) (depth : Nat) : Data (Option Nat) Nat → Form → Prop
  | primitive (type : PrimitiveType) (affects : List Nat) :
    DataOf h depth (.primitive type) (.primitive type affects)
  | compound {ns : List Nat} {parts : List Form} (hparts : List.Forall₂ (Represents h depth) ns parts)
    (affects : List Nat) : DataOf h depth (.compound ns) (.compound parts affects)
  | optional {n : Nat} {inner : Form} (hinner : Represents h depth n inner) (affects : List Nat) :
    DataOf h depth (.optional (some n)) (.optional inner affects)
  | repeatable {n : Nat} {inner : Form} (hinner : Represents h depth n inner) (affects : List Nat) :
    DataOf h depth (.repeatable (some n)) (.repeatable inner affects)
  | struct {n : Nat} {pattern : Form} (hpattern : Represents h depth n pattern) (fieldNames : List String)
    (affects : List Nat) : DataOf h depth (.struct (some n) fieldNames) (.struct pattern fieldNames affects)
  | list {n : Nat} {elementType : Form} (helement : Represents h depth n elementType) (affects : List Nat) :
    DataOf h depth (.list (some n)) (.list elementType affects)
  | map {n : Nat} {valueType : Form} (keyType : PrimitiveType) (hvalue : Represents h depth n valueType)
    (affects : List Nat) : DataOf h depth (.map keyType (some n)) (.map keyType valueType affects)
  | named {n : Nat} {actualForm : Form} (name : String) (hactual : Represents h depth n actualForm)
    (affects : List Nat) : DataOf h depth (.named (some n)) (.named name actualForm affects)

section Nodes

variable {h : Heap Node} {depth n : Nat} {form : Form}

theorem ofParts_eq (parts : List Form) : ofParts parts = parts.map ofForm := by
  induction parts with
  | nil => rfl
  | cons part parts ih => rw [ofParts, ih, List.map_cons]

theorem mapM_ofParts {ns : List Nat} {parts : List Form} :
    ns.mapM (value formTree h.cells depth) = some (ofParts parts) ↔ List.Forall₂ (Represents h depth) ns parts := by
  rw [ofParts_eq, mapM_eq_some_iff, List.forall₂_map_right_iff]
  rfl

theorem ofForm_ne_missing (form : Form) : ofForm form ≠ .missing := by
  cases form <;> simp [ofForm]

theorem readInner_ofForm {p : Option Nat}
    (hp : readInner (value formTree h.cells depth) p = some (ofForm form)) :
    ∃ n, p = some n ∧ Represents h depth n form := by
  cases p with
  | none => exact absurd (Option.some.inj hp).symm (ofForm_ne_missing form)
  | some n => exact ⟨n, rfl, hp⟩

theorem Represents.node (hform : Represents h (depth + 1) n form) :
    ∃ node, h.cells n = some node ∧ node.affects = affectsOf form ∧ DataOf h depth node.data form := by
  obtain ⟨node, hnode, hread⟩ := Option.bind_eq_some_iff.mp hform
  obtain ⟨d, hd, heq⟩ := Option.map_eq_some_iff.mp hread
  obtain ⟨name, data, affects⟩ := node
  refine ⟨_, hnode, ?_⟩
  cases form with
  | primitive type affects =>
      obtain ⟨rfl, rfl, rfl⟩ := FormTree.node.inj heq
      cases data <;> simp [Data.read] at hd
      subst hd
      exact ⟨rfl, .primitive _ _⟩
  | compound parts affects =>
      obtain ⟨rfl, rfl, rfl⟩ := FormTree.node.inj heq
      cases data <;> simp [Data.read] at hd
      exact ⟨rfl, .compound (mapM_ofParts.mp hd) _⟩
  | optional inner affects =>
      obtain ⟨rfl, rfl, rfl⟩ := FormTree.node.inj heq
      cases data <;> simp [Data.read] at hd
      obtain ⟨m, rfl, hm⟩ := readInner_ofForm hd
      exact ⟨rfl, .optional hm _⟩
  | repeatable inner affects =>
      obtain ⟨rfl, rfl, rfl⟩ := FormTree.node.inj heq
      cases data <;> simp [Data.read] at hd
      obtain ⟨m, rfl, hm⟩ := readInner_ofForm hd
      exact ⟨rfl, .repeatable hm _⟩
  | struct pattern fieldNames affects =>
      obtain ⟨rfl, rfl, rfl⟩ := FormTree.node.inj heq
      cases data <;> simp [Data.read] at hd
      obtain ⟨hd, rfl⟩ := hd
      obtain ⟨m, rfl, hm⟩ := readInner_ofForm hd
      exact ⟨rfl, .struct hm _ _⟩
  | list elementType affects =>
      obtain ⟨rfl, rfl, rfl⟩ := FormTree.node.inj heq
      cases data <;> simp [Data.read] at hd
      obtain ⟨m, rfl, hm⟩ := readInner_ofForm hd
      exact ⟨rfl, .list hm _⟩
  | map keyType valueType affects =>
      obtain ⟨rfl, rfl, rfl⟩ := FormTree.node.inj heq
      cases data <;> simp [Data.read] at hd
      obtain ⟨hd, rfl⟩ := hd
      obtain ⟨m, rfl, hm⟩ := readInner_ofForm hd
      exact ⟨rfl, .map _ hm _⟩
  | named name actualForm affects =>
      obtain ⟨rfl, rfl, rfl⟩ := FormTree.node.inj heq
      cases data <;> simp [Data.read] at hd
      obtain ⟨m, rfl, hm⟩ := readInner_ofForm hd
      exact ⟨rfl, .named _ hm _⟩

theorem Represents.current (hform : Represents h depth n form) :
    ∃ node depth', current h n = some node ∧ depth' < depth ∧ node.affects = affectsOf (unwrap form) ∧
      DataOf h depth' node.data (unwrap form) := by
  cases depth with
  | zero => cases hform
  | succ depth =>
      obtain ⟨⟨name, data, affects⟩, hnode, haffects, hdata⟩ := hform.node
      cases hdata with
      | named name hactual =>
          cases depth with
          | zero => cases hactual
          | succ depth =>
              obtain ⟨actual, hactual, haffects', hdata'⟩ := hactual.node
              exact ⟨actual, depth, by simp [FormsMemory.current, hnode, hactual], by omega, haffects', hdata'⟩
      | primitive | compound | optional | repeatable | struct | list | map =>
          exact ⟨_, depth, by rw [FormsMemory.current, hnode]; rfl, Nat.lt_succ_self depth, haffects,
            by constructor <;> assumption⟩

end Nodes

section Compare

variable {h : Heap Node} {depth₁ depth₂ : Nat} {equal : Option Nat → Option Nat → Option Bool}

theorem partsEqual_refines
    (hequal : ∀ m n f g, Represents h depth₁ m f → Represents h depth₂ n g →
      equal (some m) (some n) = some (FormsModel.formsStructurallyEqual f g))
    {ms ns : List Nat} {fs gs : List Form} (hms : List.Forall₂ (Represents h depth₁) ms fs)
    (hns : List.Forall₂ (Represents h depth₂) ns gs) (hlength : fs.length = gs.length) :
    partsEqual equal ms ns = some (FormsModel.partsEqual fs gs) := by
  induction hms generalizing ns gs with
  | nil =>
      obtain rfl := List.length_eq_zero_iff.mp hlength.symm
      cases hns
      rw [FormsModel.partsEqual]
      rfl
  | cons hm hms ih =>
      cases hns with
      | nil => cases hlength
      | cons hn hns =>
          rw [partsEqual, hequal _ _ _ _ hm hn, ih hns (Nat.succ.inj hlength), FormsModel.partsEqual]
          cases FormsModel.formsStructurallyEqual _ _ <;> rfl

theorem partsEqual_of_length_ne {fs gs : List Form} (hlength : fs.length ≠ gs.length) :
    FormsModel.partsEqual fs gs = false := by
  induction fs generalizing gs with
  | nil =>
      cases gs with
      | nil => exact absurd rfl hlength
      | cons g gs => simp [FormsModel.partsEqual]
  | cons f fs ih =>
      cases gs with
      | nil => simp [FormsModel.partsEqual]
      | cons g gs =>
          rw [FormsModel.partsEqual, ih (fun heq => hlength (congrArg Nat.succ heq)), Bool.and_false]

/-- The lengths are compared before the parts, which the tree model does at the end
of the shorter list. -/
theorem kindsEqual_refines
    (hequal : ∀ m n f g, Represents h depth₁ m f → Represents h depth₂ n g →
      equal (some m) (some n) = some (FormsModel.formsStructurallyEqual f g))
    {data₁ data₂ : Data (Option Nat) Nat} {f g : Form} (h₁ : DataOf h depth₁ data₁ f) (h₂ : DataOf h depth₂ data₂ g) :
    kindsEqual equal data₁ data₂ = some (FormsModel.kindsEqual f g) := by
  cases h₁ with
  | primitive type affects => cases h₂ <;> simp [kindsEqual, FormsModel.kindsEqual]
  | compound hparts affects =>
      cases h₂ with
      | compound hparts₂ affects₂ =>
          rw [kindsEqual, FormsModel.kindsEqual, hparts.length_eq, hparts₂.length_eq]
          split
          · rename_i hlength
            rw [partsEqual_of_length_ne hlength]
          · rename_i hlength
            exact partsEqual_refines hequal hparts hparts₂ (not_not.mp hlength)
      | primitive | optional | repeatable | struct | list | map | named => simp [kindsEqual, FormsModel.kindsEqual]
  | optional hinner affects =>
      cases h₂ with
      | optional hinner₂ affects₂ => rw [kindsEqual, FormsModel.kindsEqual, hequal _ _ _ _ hinner hinner₂]
      | primitive | compound | repeatable | struct | list | map | named => simp [kindsEqual, FormsModel.kindsEqual]
  | repeatable hinner affects =>
      cases h₂ with
      | repeatable hinner₂ affects₂ => rw [kindsEqual, FormsModel.kindsEqual, hequal _ _ _ _ hinner hinner₂]
      | primitive | compound | optional | struct | list | map | named => simp [kindsEqual, FormsModel.kindsEqual]
  | struct hpattern fieldNames affects =>
      cases h₂ with
      | struct hpattern₂ fieldNames₂ affects₂ =>
          rw [kindsEqual, FormsModel.kindsEqual, hequal _ _ _ _ hpattern hpattern₂]
          by_cases hlength : fieldNames.length = fieldNames₂.length <;> simp [hlength]
      | primitive | compound | optional | repeatable | list | map | named => simp [kindsEqual, FormsModel.kindsEqual]
  | list helement affects =>
      cases h₂ with
      | list helement₂ affects₂ => rw [kindsEqual, FormsModel.kindsEqual, hequal _ _ _ _ helement helement₂]
      | primitive | compound | optional | repeatable | struct | map | named =>
          simp [kindsEqual, FormsModel.kindsEqual]
  | map keyType hvalue affects =>
      cases h₂ with
      | map keyType₂ hvalue₂ affects₂ =>
          rw [kindsEqual, FormsModel.kindsEqual, hequal _ _ _ _ hvalue hvalue₂]
          by_cases hkey : keyType = keyType₂ <;> simp [hkey]
      | primitive | compound | optional | repeatable | struct | list | named =>
          simp [kindsEqual, FormsModel.kindsEqual]
  | named name hactual affects => cases h₂ <;> simp [kindsEqual, FormsModel.kindsEqual]

end Compare

section Queries

variable {h : Heap Node} {depth depth₂ fuel m n : Nat} {form f g : Form}

/-- The recursion on the nodes ends, and compares the forms. -/
theorem formsStructurallyEqual_refines (hm : Represents h depth m f) (hn : Represents h depth₂ n g)
    (hfuel : depth ≤ fuel) :
    formsStructurallyEqual h fuel (some m) (some n) = some (FormsModel.formsStructurallyEqual f g) := by
  induction fuel generalizing depth depth₂ m n f g with
  | zero =>
      obtain rfl := Nat.le_zero.mp hfuel
      cases hm
  | succ fuel ih =>
      obtain ⟨node₁, d₁, hcur₁, hd₁, -, hdata₁⟩ := hm.current
      obtain ⟨node₂, d₂, hcur₂, -, -, hdata₂⟩ := hn.current
      rw [formsStructurallyEqual, hcur₁, hcur₂, FormsModel.formsStructurallyEqual]
      exact kindsEqual_refines (fun m' n' f' g' hm' hn' => ih hm' hn' (by omega)) hdata₁ hdata₂

theorem akFormIsCompatible_refines (hm : Represents h depth m f) (hn : Represents h depth₂ n g)
    (hfuel : depth ≤ fuel) :
    akFormIsCompatible h fuel (some m) (some n) = some (FormsModel.akFormIsCompatible f g) :=
  formsStructurallyEqual_refines hm hn hfuel

theorem formHasStructuralAffordance_refines (hform : Represents h depth n form) (name : String) :
    formHasStructuralAffordance h n name = some (FormsAffordances.formHasStructuralAffordance form name) := by
  obtain ⟨⟨nodeName, data, affects⟩, d, hcur, -, -, hdata⟩ := hform.current
  rw [formHasStructuralAffordance, hcur, FormsAffordances.formHasStructuralAffordance]
  generalize unwrap form = current at hdata ⊢
  cases hdata <;> rfl

theorem akFormGetAffect_refines (s : Affects) (hform : Represents h depth n form) (name : String) :
    akFormGetAffect h s n name = some (FormsAffordances.akFormGetAffect s form name) := by
  obtain ⟨node, d, hcur, -, haffects, -⟩ := hform.current
  rw [akFormGetAffect, hcur, FormsAffordances.akFormGetAffect, ← haffects]
  rfl

theorem akFormHasAffordance_refines (s : Affects) (hform : Represents h depth n form) (name : String) :
    akFormHasAffordance h s n name = some (FormsAffordances.akFormHasAffordance s form name) := by
  rw [akFormHasAffordance, akFormGetAffect_refines s hform, formHasStructuralAffordance_refines hform,
    FormsAffordances.akFormHasAffordance, FormsAffordances.akFormHasAffect]
  cases FormsAffordances.akFormGetAffect s form name <;> rfl

theorem akFormGetAffordances_refines (s : Affects) (hform : Represents h depth n form) :
    akFormGetAffordances h s n = some (FormsAffordances.akFormGetAffordances s form) := by
  obtain ⟨⟨nodeName, data, affects⟩, d, hcur, -, haffects, hdata⟩ := hform.current
  rw [akFormGetAffordances, hcur, FormsAffordances.akFormGetAffordances, ← haffects]
  generalize unwrap form = current at hdata ⊢
  cases hdata <;> rfl

end Queries

def Makes (h : Heap Node) (result : Option Result) (depth : Nat) (form : Form) : Prop :=
  ∃ n h', result = some (some n, h') ∧ h.next ≤ n ∧ Represents h' depth n form ∧
    ∀ depth m other, Represents h depth m other → Represents h' depth m other

section Constructors

variable {h : Heap Node} {depth n : Nat} {form : Form}

theorem makes_of_stores {result : Option Result} (hstores : Stores h result depth (ofForm form)) :
    Makes h result depth form := by
  obtain ⟨n, h', hresult, hgrows, hvalue⟩ := hstores
  refine ⟨n, h', hresult, ?_, value_mono (above_extends h.next h'.cells) le_rfl hvalue,
    fun depth m other hother => value_mono hgrows.extends le_rfl hother⟩
  cases depth with
  | zero => cases hvalue
  | succ depth =>
      obtain ⟨node, hnode, -⟩ := Option.bind_eq_some_iff.mp hvalue
      rw [above] at hnode
      split at hnode
      · assumption
      · cases hnode

theorem akFormClone_refines (hform : Represents h depth n form) :
    Makes h (akFormClone depth h (some n)) depth (FormsModel.akFormClone form) := by
  rw [FormsModel.akFormClone_eq]
  exact makes_of_stores ((akFormClone_copies depth).2 h n _ hform)

theorem akFormNewCompound_refines {ns : List Nat} {parts : List Form}
    (hparts : List.Forall₂ (Represents h depth) ns parts) :
    Makes h (akFormNewCompound depth h (some (ns.map some))) (depth + 1) (FormsModel.akFormNewCompound parts) := by
  rw [FormsModel.akFormNewCompound, FormsModel.cloneParts_eq]
  exact makes_of_stores (akFormNewCompound_spec (mapM_ofParts.mpr hparts))

theorem newAround_refines (hform : Represents h depth n form) (name : Option String)
    (data : Option Nat → Data (Option Nat) Nat) (d : FormTree → Data FormTree FormTree) (around : Form → Form)
    (hdata : ∀ f p t, readInner f p = some t → (data p).read f = some (d t))
    (haround : ∀ inner, ofForm (around inner) = .node name (d (ofForm inner)) []) :
    Makes h (newAround depth h name data (some n)) (depth + 1) (around (FormsModel.akFormClone form)) := by
  rw [FormsModel.akFormClone_eq]
  apply makes_of_stores
  rw [haround]
  exact newAround_spec hform name data d fun f p => hdata f p _

theorem constructors_refine (hform : Represents h depth n form) :
    Makes h (akFormNewOptional depth h (some n)) (depth + 1) (FormsModel.akFormNewOptional form) ∧
    Makes h (akFormNewRepeatable depth h (some n)) (depth + 1) (FormsModel.akFormNewRepeatable form) ∧
    (∀ fieldNames, Makes h (akFormNewStruct depth h (some n) (some fieldNames)) (depth + 1)
      (FormsModel.akFormNewStruct form fieldNames)) ∧
    Makes h (akFormNewList depth h (some n)) (depth + 1) (FormsModel.akFormNewList form) ∧
    (∀ keyType, Makes h (akFormNewMap depth h keyType (some n)) (depth + 1) (FormsModel.akFormNewMap keyType form)) ∧
    ∀ name, Makes h (akFormNewNamed depth h (some name) (some n)) (depth + 1)
      (FormsModel.akFormNewNamed name form) := by
  refine ⟨?_, ?_, fun fieldNames => ?_, ?_, fun keyType => ?_, fun name => ?_⟩
  · apply newAround_refines hform none .optional .optional (.optional · [])
    · intro f p t hp
      rw [Data.read, hp, Option.map_some]
    · exact fun inner => rfl
  · apply newAround_refines hform none .repeatable .repeatable (.repeatable · [])
    · intro f p t hp
      rw [Data.read, hp, Option.map_some]
    · exact fun inner => rfl
  · apply newAround_refines hform none (.struct · fieldNames) (.struct · fieldNames) (.struct · fieldNames [])
    · intro f p t hp
      rw [Data.read, hp, Option.map_some]
    · exact fun inner => rfl
  · apply newAround_refines hform none .list .list (.list · [])
    · intro f p t hp
      rw [Data.read, hp, Option.map_some]
    · exact fun inner => rfl
  · apply newAround_refines hform none (.map keyType) (.map keyType) (.map keyType · [])
    · intro f p t hp
      rw [Data.read, hp, Option.map_some]
    · exact fun inner => rfl
  · apply newAround_refines hform (some name) .named .named (.named name · [])
    · intro f p t hp
      rw [Data.read, hp, Option.map_some]
    · exact fun inner => rfl

end Constructors

end Ak24.FormsRefinement
