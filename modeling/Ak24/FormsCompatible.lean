import Ak24.FormsModel

namespace Ak24.FormsCompatible

open FormsModel

def isNamed : Form → Bool
  | .named _ _ _ => true
  | _ => false

mutual

/-- No name in the form names a name. -/
def plain : Form → Bool
  | .primitive _ _ => true
  | .compound parts _ => plainParts parts
  | .optional inner _ | .repeatable inner _ | .struct inner _ _ | .list inner _ | .map _ inner _ => plain inner
  | .named _ actualForm _ => !isNamed actualForm && plain actualForm

def plainParts : List Form → Bool
  | [] => true
  | part :: parts => plain part && plainParts parts

end

/-- What compatible forms have in common: everything but the names, of a
structure's fields only their number. -/
inductive Shape
  | primitive (type : PrimitiveType)
  | compound (parts : List Shape)
  | optional (inner : Shape)
  | repeatable (inner : Shape)
  | struct (fields : Nat) (pattern : Shape)
  | list (elementType : Shape)
  | map (keyType : PrimitiveType) (valueType : Shape)

mutual

def shape : Form → Shape
  | .primitive type _ => .primitive type
  | .compound parts _ => .compound (shapeParts parts)
  | .optional inner _ => .optional (shape inner)
  | .repeatable inner _ => .repeatable (shape inner)
  | .struct pattern fieldNames _ => .struct fieldNames.length (shape pattern)
  | .list elementType _ => .list (shape elementType)
  | .map keyType valueType _ => .map keyType (shape valueType)
  | .named _ actualForm _ => shape actualForm

def shapeParts : List Form → List Shape
  | [] => []
  | part :: parts => shape part :: shapeParts parts

end

theorem plain_unwrap (form : Form) : plain form = (!isNamed (unwrap form) && plain (unwrap form)) := by
  cases form <;> simp [plain, unwrap, isNamed]

theorem shape_unwrap (form : Form) : shape form = shape (unwrap form) := by
  cases form <;> simp [shape, unwrap]

mutual

theorem formsStructurallyEqual_iff (form₁ form₂ : Form) :
    formsStructurallyEqual form₁ form₂ = true ↔ plain form₁ = true ∧ plain form₂ = true ∧ shape form₁ = shape form₂ := by
  rw [formsStructurallyEqual, kindsEqual_iff, plain_unwrap form₁, plain_unwrap form₂, shape_unwrap form₁,
    shape_unwrap form₂]
  simp only [Bool.and_eq_true, Bool.not_eq_true']
  termination_by 2 * sizeOf form₁ + 1
  decreasing_by
    have := sizeOf_unwrap form₁
    omega

theorem kindsEqual_iff (form₁ form₂ : Form) :
    kindsEqual form₁ form₂ = true ↔ (isNamed form₁ = false ∧ plain form₁ = true) ∧
      (isNamed form₂ = false ∧ plain form₂ = true) ∧ shape form₁ = shape form₂ := by
  cases form₁ with
  | primitive type₁ =>
      cases form₂ <;> simp [kindsEqual, isNamed, plain, shape]
  | compound parts₁ =>
      cases form₂ with
      | compound parts₂ => simp [kindsEqual, isNamed, plain, shape, partsEqual_iff parts₁ parts₂]
      | primitive | optional | repeatable | struct | list | map | named => simp [kindsEqual, isNamed, plain, shape]
  | optional inner₁ =>
      cases form₂ with
      | optional inner₂ => simp [kindsEqual, isNamed, plain, shape, formsStructurallyEqual_iff inner₁ inner₂]
      | primitive | compound | repeatable | struct | list | map | named => simp [kindsEqual, isNamed, plain, shape]
  | repeatable inner₁ =>
      cases form₂ with
      | repeatable inner₂ => simp [kindsEqual, isNamed, plain, shape, formsStructurallyEqual_iff inner₁ inner₂]
      | primitive | compound | optional | struct | list | map | named => simp [kindsEqual, isNamed, plain, shape]
  | struct pattern₁ =>
      cases form₂ with
      | struct pattern₂ =>
          simp only [kindsEqual, isNamed, plain, shape, formsStructurallyEqual_iff pattern₁ pattern₂, Bool.and_eq_true,
            decide_eq_true_eq, Shape.struct.injEq]
          tauto
      | primitive | compound | optional | repeatable | list | map | named => simp [kindsEqual, isNamed, plain, shape]
  | list elementType₁ =>
      cases form₂ with
      | list elementType₂ =>
          simp [kindsEqual, isNamed, plain, shape, formsStructurallyEqual_iff elementType₁ elementType₂]
      | primitive | compound | optional | repeatable | struct | map | named => simp [kindsEqual, isNamed, plain, shape]
  | map keyType₁ valueType₁ =>
      cases form₂ with
      | map keyType₂ valueType₂ =>
          simp only [kindsEqual, isNamed, plain, shape, formsStructurallyEqual_iff valueType₁ valueType₂,
            Bool.and_eq_true, decide_eq_true_eq, Shape.map.injEq]
          tauto
      | primitive | compound | optional | repeatable | struct | list | named => simp [kindsEqual, isNamed, plain, shape]
  | named => simp [kindsEqual, isNamed]
  termination_by 2 * sizeOf form₁

theorem partsEqual_iff (parts₁ parts₂ : List Form) :
    partsEqual parts₁ parts₂ = true ↔
      plainParts parts₁ = true ∧ plainParts parts₂ = true ∧ shapeParts parts₁ = shapeParts parts₂ := by
  cases parts₁ with
  | nil => cases parts₂ <;> simp [partsEqual, plainParts, shapeParts]
  | cons part₁ parts₁ =>
      cases parts₂ with
      | nil => simp [partsEqual, shapeParts]
      | cons part₂ parts₂ =>
          simp only [partsEqual, plainParts, shapeParts, formsStructurallyEqual_iff part₁ part₂,
            partsEqual_iff parts₁ parts₂, Bool.and_eq_true, List.cons.injEq]
          tauto
  termination_by 2 * sizeOf parts₁

end

theorem akFormIsCompatible_iff {form₁ form₂ : Form} :
    akFormIsCompatible form₁ form₂ = true ↔ plain form₁ = true ∧ plain form₂ = true ∧ shape form₁ = shape form₂ :=
  formsStructurallyEqual_iff form₁ form₂

theorem akFormIsCompatible_symm (form₁ form₂ : Form) : akFormIsCompatible form₁ form₂ = akFormIsCompatible form₂ form₁ := by
  rw [Bool.eq_iff_iff, akFormIsCompatible_iff, akFormIsCompatible_iff]
  constructor
  · rintro ⟨h₁, h₂, hshape⟩
    exact ⟨h₂, h₁, hshape.symm⟩
  · rintro ⟨h₂, h₁, hshape⟩
    exact ⟨h₁, h₂, hshape.symm⟩

theorem akFormIsCompatible_trans {form₁ form₂ form₃ : Form} (h : akFormIsCompatible form₁ form₂ = true)
    (h' : akFormIsCompatible form₂ form₃ = true) : akFormIsCompatible form₁ form₃ = true := by
  rw [akFormIsCompatible_iff] at h h' ⊢
  exact ⟨h.1, h'.2.1, h.2.2.trans h'.2.2⟩

theorem akFormIsCompatible_self {form : Form} : akFormIsCompatible form form = true ↔ plain form = true := by
  rw [akFormIsCompatible_iff]
  exact ⟨fun h => h.1, fun h => ⟨h, h, rfl⟩⟩

theorem akFormIsCompatible_named {form : Form} (hform : isNamed form = false) (name : String) (g : Form) :
    akFormIsCompatible (akFormNewNamed name form) g = akFormIsCompatible form g := by
  rw [Bool.eq_iff_iff, akFormIsCompatible_iff, akFormIsCompatible_iff]
  simp [akFormNewNamed, akFormClone_eq, plain, shape, hform]

/-- A form is compatible with itself, with the forms that are compatible with it
and theirs, and with all of them under a name of its own, exactly when it has no
name yet and none in it names a name. -/
theorem compatible_iff_plain (form : Form) :
    (akFormIsCompatible form form = true ∧
      (∀ g, akFormIsCompatible form g = akFormIsCompatible g form) ∧
      (∀ g h, akFormIsCompatible form g = true → akFormIsCompatible g h = true → akFormIsCompatible form h = true) ∧
      ∀ name g, akFormIsCompatible (akFormNewNamed name form) g = akFormIsCompatible form g) ↔
    isNamed form = false ∧ plain form = true := by
  constructor
  · rintro ⟨hself, -, -, hnamed⟩
    have hname : plain (akFormNewNamed "" form) = true := by
      have hcompatible := hnamed "" form
      rw [hself, akFormIsCompatible_iff] at hcompatible
      exact hcompatible.1
    simpa [akFormNewNamed, akFormClone_eq, plain] using hname
  · rintro ⟨hform, hplain⟩
    exact ⟨akFormIsCompatible_self.mpr hplain, akFormIsCompatible_symm form, fun _ _ => akFormIsCompatible_trans,
      akFormIsCompatible_named hform⟩

/-- A form under two names is not compatible with itself, and a second name
changes what a form is compatible with. -/
theorem double_name_incompatible :
    akFormIsCompatible (akFormNewNamed "outer" (akFormNewNamed "inner" (akFormNewPrimitive .i32)))
      (akFormNewNamed "outer" (akFormNewNamed "inner" (akFormNewPrimitive .i32))) = false ∧
    akFormIsCompatible (akFormNewNamed "outer" (akFormNewNamed "inner" (akFormNewPrimitive .i32)))
      (akFormNewPrimitive .i32) = false ∧
    akFormIsCompatible (akFormNewNamed "inner" (akFormNewPrimitive .i32)) (akFormNewPrimitive .i32) = true := by
  simp [akFormIsCompatible, formsStructurallyEqual, kindsEqual, unwrap, akFormNewNamed, akFormNewPrimitive, akFormClone]

end Ak24.FormsCompatible
