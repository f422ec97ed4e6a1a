import Ak24.FormsAffordances
import Ak24.HeapValues

namespace Ak24.FormsMemory

open FormsAffordances (Affects)
open FormsModel HeapValues Objects

/-- The union of an `ak_form_t` by its kind: with pointers in a form, and with
trees in the tree of a form. Only what is there is pushed on a list of parts. -/
inductive Data (ρ σ : Type)
  | primitive (type : PrimitiveType)
  | compound (parts : List σ)
  | optional (inner : ρ)
  | repeatable (inner : ρ)
  | struct (pattern : ρ) (fieldNames : List String)
  | list (elementType : ρ)
  | map (keyType : PrimitiveType) (valueType : ρ)
  | named (actualForm : ρ)
  deriving DecidableEq, Repr

structure Node where
  name : Option String
  data : Data (Option Nat) Nat
  affects : List Nat
  deriving DecidableEq, Repr

def Node.zero : Node := ⟨none, .primitive .byte, []⟩

/-- A form and the forms below it. One can be missing, where its copy could not be
made. -/
inductive FormTree
  | missing
  | node (name : Option String) (data : Data FormTree FormTree) (affects : List Nat)

section Reading

def readInner (f : Nat → Option FormTree) : Option Nat → Option FormTree
  | none => some .missing
  | some inner => f inner

def Data.read (f : Nat → Option FormTree) : Data (Option Nat) Nat → Option (Data FormTree FormTree)
  | .primitive type => some (.primitive type)
  | .compound parts => (parts.mapM f).map .compound
  | .optional inner => (readInner f inner).map .optional
  | .repeatable inner => (readInner f inner).map .repeatable
  | .struct pattern fieldNames => (readInner f pattern).map (.struct · fieldNames)
  | .list elementType => (readInner f elementType).map .list
  | .map keyType valueType => (readInner f valueType).map (.map keyType)
  | .named actualForm => (readInner f actualForm).map .named

variable {f g : Nat → Option FormTree}

theorem readInner_mono (hfg : ∀ n t, f n = some t → g n = some t) {p : Option Nat} {t : FormTree}
    (h : readInner f p = some t) : readInner g p = some t := by
  cases p with
  | none => exact h
  | some n => exact hfg n t h

theorem mapM_mono (hfg : ∀ n t, f n = some t → g n = some t) {parts : List Nat} {ts : List FormTree}
    (h : parts.mapM f = some ts) : parts.mapM g = some ts := by
  rw [mapM_eq_some_iff] at h ⊢
  exact h.imp hfg

theorem Data.read_mono (hfg : ∀ n t, f n = some t → g n = some t) {data : Data (Option Nat) Nat}
    {d : Data FormTree FormTree} (h : data.read f = some d) : data.read g = some d := by
  cases data with
  | primitive type => exact h
  | compound parts =>
      obtain ⟨ts, hts, rfl⟩ := Option.map_eq_some_iff.mp h
      rw [Data.read, mapM_mono hfg hts, Option.map_some]
  | optional | repeatable | struct | list | map | named =>
      obtain ⟨t, ht, rfl⟩ := Option.map_eq_some_iff.mp h
      rw [Data.read, readInner_mono hfg ht, Option.map_some]

def formTree : Reading Node FormTree where
  read f node := (node.data.read f).map (.node node.name · node.affects)
  mono hfg node t h := by
    obtain ⟨d, hd, rfl⟩ := Option.map_eq_some_iff.mp h
    rw [Data.read_mono hfg hd, Option.map_some]

theorem formTree_read (node : Node) : formTree.read f node = (node.data.read f).map (.node node.name · node.affects) :=
  rfl

end Reading

abbrev Result := Option Nat × Heap Node

section Clone

variable (clone : Heap Node → Option Nat → Option Result)

def cloneParts (h : Heap Node) : List Nat → Option (List Nat × Heap Node)
  | [] => some ([], h)
  | part :: parts => do
    let (partClone, h) ← clone h (some part)
    let (clones, h) ← cloneParts h parts
    match partClone with
    | none => some (clones, h)
    | some partClone => some (partClone :: clones, h)

def cloneData (h : Heap Node) : Data (Option Nat) Nat → Option (Data (Option Nat) Nat × Heap Node)
  | .primitive type => some (.primitive type, h)
  | .compound parts => do
    let (parts, h) ← cloneParts clone h parts
    some (.compound parts, h)
  | .optional inner => do
    let (inner, h) ← clone h inner
    some (.optional inner, h)
  | .repeatable inner => do
    let (inner, h) ← clone h inner
    some (.repeatable inner, h)
  | .struct pattern fieldNames => do
    let (pattern, h) ← clone h pattern
    some (.struct pattern fieldNames, h)
  | .list elementType => do
    let (elementType, h) ← clone h elementType
    some (.list elementType, h)
  | .map keyType valueType => do
    let (valueType, h) ← clone h valueType
    some (.map keyType valueType, h)
  | .named actualForm => do
    let (actualForm, h) ← clone h actualForm
    some (.named actualForm, h)

end Clone

/-- The recursion with fuel, where every allocation is granted; `none` is a form
that is not there, or a recursion without end. -/
def akFormClone : Nat → Heap Node → Option Nat → Option Result
  | _, h, none => some (none, h)
  | 0, _, some _ => none
  | fuel + 1, h, some form => do
    let node ← h.cells form
    let clone := h.next
    let h := h.alloc .zero
    let (data, h) ← cloneData (akFormClone fuel) h node.data
    some (some clone, h.store clone ⟨node.name, data, node.affects⟩)

def newAround (fuel : Nat) (h : Heap Node) (name : Option String) (data : Option Nat → Data (Option Nat) Nat) :
    Option Nat → Option Result
  | none => some (none, h)
  | some inner => do
    let form := h.next
    let h := h.alloc .zero
    let (inner, h) ← akFormClone fuel h (some inner)
    match inner with
    | none => some (none, h.free form)
    | some inner => some (some form, h.store form ⟨name, data (some inner), []⟩)

def akFormNewPrimitive (h : Heap Node) (type : PrimitiveType) : Result :=
  (some h.next, h.alloc ⟨none, .primitive type, []⟩)

def akFormNewCompound (fuel : Nat) (h : Heap Node) : Option (List (Option Nat)) → Option Result
  | none => some (none, h)
  | some parts => do
    let form := h.next
    let h := h.alloc .zero
    let (parts, h) ← cloneParts (akFormClone fuel) h parts.reduceOption
    some (some form, h.store form ⟨none, .compound parts, []⟩)

def akFormNewOptional (fuel : Nat) (h : Heap Node) (inner : Option Nat) : Option Result :=
  newAround fuel h none .optional inner

def akFormNewRepeatable (fuel : Nat) (h : Heap Node) (inner : Option Nat) : Option Result :=
  newAround fuel h none .repeatable inner

def akFormNewStruct (fuel : Nat) (h : Heap Node) (pattern : Option Nat) (fieldNames : Option (List String)) :
    Option Result :=
  match fieldNames with
  | none => some (none, h)
  | some fieldNames => newAround fuel h none (.struct · fieldNames) pattern

def akFormNewList (fuel : Nat) (h : Heap Node) (elementType : Option Nat) : Option Result :=
  newAround fuel h none .list elementType

def akFormNewMap (fuel : Nat) (h : Heap Node) (keyType : PrimitiveType) (valueType : Option Nat) : Option Result :=
  newAround fuel h none (.map keyType) valueType

def akFormNewNamed (fuel : Nat) (h : Heap Node) (name : Option String) (form : Option Nat) : Option Result :=
  match name with
  | none => some (none, h)
  | some name => newAround fuel h (some name) .named form

def current (h : Heap Node) (form : Nat) : Option Node := do
  let node ← h.cells form
  match node.data with
  | .named none => none
  | .named (some actualForm) => h.cells actualForm
  | _ => some node

section Equal

variable (equal : Option Nat → Option Nat → Option Bool)

def partsEqual : List Nat → List Nat → Option Bool
  | part₁ :: parts₁, part₂ :: parts₂ => do
    let same ← equal (some part₁) (some part₂)
    if same then partsEqual parts₁ parts₂ else some false
  | _, _ => some true

def kindsEqual : Data (Option Nat) Nat → Data (Option Nat) Nat → Option Bool
  | .primitive type₁, .primitive type₂ => some (type₁ = type₂)
  | .compound parts₁, .compound parts₂ =>
    if parts₁.length ≠ parts₂.length then some false else partsEqual equal parts₁ parts₂
  | .optional inner₁, .optional inner₂ => equal inner₁ inner₂
  | .repeatable inner₁, .repeatable inner₂ => equal inner₁ inner₂
  | .struct pattern₁ fieldNames₁, .struct pattern₂ fieldNames₂ =>
    if fieldNames₁.length ≠ fieldNames₂.length then some false else equal pattern₁ pattern₂
  | .list elementType₁, .list elementType₂ => equal elementType₁ elementType₂
  | .map keyType₁ valueType₁, .map keyType₂ valueType₂ =>
    if keyType₁ ≠ keyType₂ then some false else equal valueType₁ valueType₂
  | _, _ => some false

end Equal

/-- The recursion with fuel; `none` is a form that is not there, or fuel that does
not suffice. -/
def formsStructurallyEqual (h : Heap Node) : Nat → Option Nat → Option Nat → Option Bool
  | _, none, _ => some false
  | _, _, none => some false
  | 0, some _, some _ => none
  | fuel + 1, some form₁, some form₂ => do
    let form₁ ← current h form₁
    let form₂ ← current h form₂
    kindsEqual (formsStructurallyEqual h fuel) form₁.data form₂.data

def akFormIsCompatible (h : Heap Node) (fuel : Nat) (form₁ form₂ : Option Nat) : Option Bool :=
  formsStructurallyEqual h fuel form₁ form₂

section Affordances

variable (h : Heap Node) (s : Affects) (form : Nat)

def akFormGetAffect (name : String) : Option (Option Nat) := do
  let current ← current h form
  some (current.affects.find? fun affect => (s.record affect).name = name)

def formHasStructuralAffordance (affordanceName : String) : Option Bool := do
  let current ← current h form
  match current.data with
  | .optional _ => some (affordanceName = "is_none" || affordanceName = "is_some")
  | .repeatable _ =>
    some (affordanceName = "append" || affordanceName = "pop" || affordanceName = "push" || affordanceName = "rest" ||
      affordanceName = "iterate")
  | .list _ => some (affordanceName = "index" || affordanceName = "iterate" || affordanceName = "length")
  | .map _ _ =>
    some (affordanceName = "get" || affordanceName = "set" || affordanceName = "has" || affordanceName = "iterate")
  | .struct _ fieldNames => some (fieldNames.any fun field => affordanceName = field)
  | _ => some false

def akFormHasAffordance (affordanceName : String) : Option Bool := do
  let affect ← akFormGetAffect h s form affordanceName
  if affect.isSome then some true else formHasStructuralAffordance h form affordanceName

def akFormGetAffordances : Option (List String) := do
  let current ← current h form
  let affordances := current.affects.map fun affect => (s.record affect).name
  match current.data with
  | .optional _ => some (affordances ++ ["is_none", "is_some"])
  | .repeatable _ => some (affordances ++ ["append", "pop", "push", "rest", "iterate"])
  | .list _ => some (affordances ++ ["index", "iterate", "length"])
  | .map _ _ => some (affordances ++ ["get", "set", "has", "iterate"])
  | .struct _ fieldNames => some (affordances ++ fieldNames)
  | _ => some affordances

end Affordances

end Ak24.FormsMemory
