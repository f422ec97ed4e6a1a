import Ak24.Objects

namespace Ak24.FormsModel

inductive PrimitiveType
  | byte
  | u8
  | u16
  | u32
  | u64
  | i8
  | i16
  | i32
  | i64
  | f32
  | f64
  | char
  deriving DecidableEq, Repr

/-- An `ak_form_t` with the forms below it, which are its own, and its affects by
the numbers of their allocations. -/
inductive Form
  | primitive (type : PrimitiveType) (affects : List Nat)
  | compound (parts : List Form) (affects : List Nat)
  | optional (inner : Form) (affects : List Nat)
  | repeatable (inner : Form) (affects : List Nat)
  | struct (pattern : Form) (fieldNames : List String) (affects : List Nat)
  | list (elementType : Form) (affects : List Nat)
  | map (keyType : PrimitiveType) (valueType : Form) (affects : List Nat)
  | named (name : String) (actualForm : Form) (affects : List Nat)

mutual

def akFormClone : Form → Form
  | .primitive type affects => .primitive type affects
  | .compound parts affects => .compound (cloneParts parts) affects
  | .optional inner affects => .optional (akFormClone inner) affects
  | .repeatable inner affects => .repeatable (akFormClone inner) affects
  | .struct pattern fieldNames affects => .struct (akFormClone pattern) fieldNames affects
  | .list elementType affects => .list (akFormClone elementType) affects
  | .map keyType valueType affects => .map keyType (akFormClone valueType) affects
  | .named name actualForm affects => .named name (akFormClone actualForm) affects

def cloneParts : List Form → List Form
  | [] => []
  | part :: parts => akFormClone part :: cloneParts parts

end

mutual

theorem akFormClone_eq : ∀ form : Form, akFormClone form = form
  | .primitive type affects => rfl
  | .compound parts affects => by rw [akFormClone, cloneParts_eq parts]
  | .optional inner affects => by rw [akFormClone, akFormClone_eq inner]
  | .repeatable inner affects => by rw [akFormClone, akFormClone_eq inner]
  | .struct pattern fieldNames affects => by rw [akFormClone, akFormClone_eq pattern]
  | .list elementType affects => by rw [akFormClone, akFormClone_eq elementType]
  | .map keyType valueType affects => by rw [akFormClone, akFormClone_eq valueType]
  | .named name actualForm affects => by rw [akFormClone, akFormClone_eq actualForm]

theorem cloneParts_eq : ∀ parts : List Form, cloneParts parts = parts
  | [] => rfl
  | part :: parts => by rw [cloneParts, akFormClone_eq part, cloneParts_eq parts]

end

def akFormNewPrimitive (type : PrimitiveType) : Form := .primitive type []

def akFormNewCompound (parts : List Form) : Form := .compound (cloneParts parts) []

def akFormNewOptional (inner : Form) : Form := .optional (akFormClone inner) []

def akFormNewRepeatable (inner : Form) : Form := .repeatable (akFormClone inner) []

def akFormNewStruct (pattern : Form) (fieldNames : List String) : Form := .struct (akFormClone pattern) fieldNames []

def akFormNewList (elementType : Form) : Form := .list (akFormClone elementType) []

def akFormNewMap (keyType : PrimitiveType) (valueType : Form) : Form := .map keyType (akFormClone valueType) []

def akFormNewNamed (name : String) (form : Form) : Form := .named name (akFormClone form) []

mutual

/-- The affects that `ak_form_free` frees, in its order: those of the forms below
before a form's own. -/
def akFormFree : Form → List Nat
  | .primitive _ affects => affects
  | .compound parts affects => freeParts parts ++ affects
  | .optional inner affects => akFormFree inner ++ affects
  | .repeatable inner affects => akFormFree inner ++ affects
  | .struct pattern _ affects => akFormFree pattern ++ affects
  | .list elementType affects => akFormFree elementType ++ affects
  | .map _ valueType affects => akFormFree valueType ++ affects
  | .named _ actualForm affects => akFormFree actualForm ++ affects

def freeParts : List Form → List Nat
  | [] => []
  | part :: parts => akFormFree part ++ freeParts parts

end

def akFormAddAffect (affect : Nat) : Form → Form
  | .primitive type affects => .primitive type (affects ++ [affect])
  | .compound parts affects => .compound parts (affects ++ [affect])
  | .optional inner affects => .optional inner (affects ++ [affect])
  | .repeatable inner affects => .repeatable inner (affects ++ [affect])
  | .struct pattern fieldNames affects => .struct pattern fieldNames (affects ++ [affect])
  | .list elementType affects => .list elementType (affects ++ [affect])
  | .map keyType valueType affects => .map keyType valueType (affects ++ [affect])
  | .named name actualForm affects => .named name actualForm (affects ++ [affect])

/-- `forms_structurally_equal` looks through one name. -/
def unwrap : Form → Form
  | .named _ actualForm _ => actualForm
  | form => form

theorem sizeOf_unwrap (form : Form) : sizeOf (unwrap form) ≤ sizeOf form := by
  cases form with
  | named name actualForm affects =>
      simp only [unwrap, Form.named.sizeOf_spec]
      omega
  | primitive | compound | optional | repeatable | struct | list | map => exact le_rfl

mutual

def formsStructurallyEqual (form₁ form₂ : Form) : Bool := kindsEqual (unwrap form₁) (unwrap form₂)
  termination_by 2 * sizeOf form₁ + 1
  decreasing_by
    have := sizeOf_unwrap form₁
    omega

def kindsEqual (form₁ form₂ : Form) : Bool :=
  match form₁, form₂ with
  | .primitive type₁ _, .primitive type₂ _ => type₁ = type₂
  | .compound parts₁ _, .compound parts₂ _ => partsEqual parts₁ parts₂
  | .optional inner₁ _, .optional inner₂ _ => formsStructurallyEqual inner₁ inner₂
  | .repeatable inner₁ _, .repeatable inner₂ _ => formsStructurallyEqual inner₁ inner₂
  | .struct pattern₁ fieldNames₁ _, .struct pattern₂ fieldNames₂ _ =>
    fieldNames₁.length = fieldNames₂.length && formsStructurallyEqual pattern₁ pattern₂
  | .list elementType₁ _, .list elementType₂ _ => formsStructurallyEqual elementType₁ elementType₂
  | .map keyType₁ valueType₁ _, .map keyType₂ valueType₂ _ =>
    keyType₁ = keyType₂ && formsStructurallyEqual valueType₁ valueType₂
  | _, _ => false
  termination_by 2 * sizeOf form₁

def partsEqual (parts₁ parts₂ : List Form) : Bool :=
  match parts₁, parts₂ with
  | [], [] => true
  | part₁ :: parts₁, part₂ :: parts₂ => formsStructurallyEqual part₁ part₂ && partsEqual parts₁ parts₂
  | _, _ => false
  termination_by 2 * sizeOf parts₁

end

def akFormIsCompatible (form₁ form₂ : Form) : Bool := formsStructurallyEqual form₁ form₂

end Ak24.FormsModel
