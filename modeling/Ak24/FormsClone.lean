import Ak24.FormsMemory

namespace Ak24.FormsClone

open FormsAffordances (Affects)
open FormsModel (PrimitiveType)
open FormsMemory HeapValues Objects

/-- A call ends and returns a tree of new nodes, and leaves those before as they are. -/
def Stores (h : Heap Node) (result : Option Result) (depth : Nat) (t : FormTree) : Prop :=
  ∃ form h', result = some (some form, h') ∧ Grows h h' ∧ value formTree (above h.next h'.cells) depth form = some t

def Copies (depth : Nat) (clone : Heap Node → Option Nat → Option Result) : Prop :=
  (∀ h, clone h none = some (none, h)) ∧
    ∀ h form t, value formTree h.cells depth form = some t → Stores h (clone h (some form)) depth t

section Copying

variable {depth : Nat} {clone : Heap Node → Option Nat → Option Result} {h h₂ : Heap Node}

theorem copyInner_spec (hclone : Copies depth clone) {inner : Option Nat} {t : FormTree}
    (hinner : readInner (value formTree h.cells depth) inner = some t) :
    ∃ copy h', clone h inner = some (copy, h') ∧ Grows h h' ∧
      readInner (value formTree (above h.next h'.cells) depth) copy = some t := by
  cases inner with
  | none => exact ⟨none, h, hclone.1 h, Grows.refl h, hinner⟩
  | some inner =>
      obtain ⟨copy, h', hcopy, hgrows, hvalue⟩ := hclone.2 h inner t hinner
      exact ⟨some copy, h', hcopy, hgrows, hvalue⟩

theorem cloneParts_spec (hclone : Copies depth clone) {parts : List Nat} {ts : List FormTree}
    (hparts : parts.mapM (value formTree h.cells depth) = some ts) :
    ∃ clones h', cloneParts clone h parts = some (clones, h') ∧ Grows h h' ∧
      clones.mapM (value formTree (above h.next h'.cells) depth) = some ts := by
  induction parts generalizing h ts with
  | nil => exact ⟨[], h, rfl, Grows.refl h, hparts⟩
  | cons part parts ih =>
      obtain ⟨t, ts, ht, hts, rfl⟩ := List.forall₂_cons_left_iff.mp (mapM_eq_some_iff.mp hparts)
      obtain ⟨copy, h₁, hcopy, hgrows₁, hvalue⟩ := hclone.2 h part t ht
      have hts₁ := mapM_mono (fun n s hn => value_mono hgrows₁.extends le_rfl hn) (mapM_eq_some_iff.mpr hts)
      obtain ⟨clones, h₂, hclones, hgrows₂, hvalues⟩ := ih hts₁
      refine ⟨copy :: clones, h₂, by simp [cloneParts, hcopy, hclones], hgrows₁.trans hgrows₂, ?_⟩
      have hfirst := value_mono (hgrows₂.above h.next) le_rfl hvalue
      have hrest := mapM_mono (fun n s hn =>
        value_mono (above_mono hgrows₁.next fun _ _ _ hm => hm) le_rfl hn) hvalues
      simp [List.mapM_cons, hfirst, hrest]

theorem cloneData_spec (hclone : Copies depth clone) {data : Data (Option Nat) Nat} {d : Data FormTree FormTree}
    (hdata : data.read (value formTree h.cells depth) = some d) :
    ∃ copy h', cloneData clone h data = some (copy, h') ∧ Grows h h' ∧
      copy.read (value formTree (above h.next h'.cells) depth) = some d := by
  cases data with
  | primitive type => exact ⟨_, h, rfl, Grows.refl h, hdata⟩
  | compound parts =>
      obtain ⟨ts, hts, rfl⟩ := Option.map_eq_some_iff.mp hdata
      obtain ⟨clones, h', hclones, hgrows, hvalues⟩ := cloneParts_spec hclone hts
      exact ⟨.compound clones, h', by simp [cloneData, hclones], hgrows, by simp [Data.read, hvalues]⟩
  | optional inner | repeatable inner | struct inner | list inner | map _ inner | named inner =>
      obtain ⟨t, ht, rfl⟩ := Option.map_eq_some_iff.mp hdata
      obtain ⟨copy, h', hcopy, hgrows, hvalue⟩ := copyInner_spec hclone ht
      exact ⟨_, h', by rw [cloneData, hcopy]; rfl, hgrows, by simp [Data.read, hvalue]⟩

theorem fill_spec (hgrows : Grows (h.alloc .zero) h₂) {data : Data (Option Nat) Nat} {d : Data FormTree FormTree}
    (hdata : data.read (value formTree (above (h.next + 1) h₂.cells) depth) = some d) (name : Option String)
    (affects : List Nat) :
    Grows h (h₂.store h.next ⟨name, data, affects⟩) ∧
      value formTree (above h.next (h₂.store h.next ⟨name, data, affects⟩).cells) (depth + 1) h.next =
        some (.node name d affects) := by
  have hzero : h₂.cells h.next = some .zero := by
    rw [hgrows.cells h.next (Nat.lt_succ_self _), Heap.alloc_self]
  have hbelow : Extends (above (h.next + 1) h₂.cells)
      (above h.next (h₂.store h.next ⟨name, data, affects⟩).cells) := by
    refine above_mono (Nat.le_succ _) fun n hn node hnode => ?_
    rw [Heap.store_of_ne (by omega), hnode]
  refine ⟨((Grows.alloc h .zero).trans hgrows).store le_rfl _, ?_⟩
  have hread := Data.read_mono (fun n s hn => value_mono hbelow le_rfl hn) hdata
  rw [value, above, if_pos le_rfl, Heap.store_self hzero, Option.bind_some, formTree_read]
  exact Option.map_eq_some_iff.mpr ⟨d, hread, rfl⟩

end Copying

/-- The recursion ends on every tree, and copies it. -/
theorem akFormClone_copies (depth : Nat) : Copies depth (akFormClone depth) := by
  induction depth with
  | zero =>
      refine ⟨fun _ => rfl, fun h form t hform => ?_⟩
      cases hform
  | succ depth ih =>
      refine ⟨fun _ => rfl, fun h form t hform => ?_⟩
      obtain ⟨node, hnode, hread⟩ := Option.bind_eq_some_iff.mp hform
      obtain ⟨d, hd, rfl⟩ := Option.map_eq_some_iff.mp hread
      have hd' := Data.read_mono (fun n s hn => value_mono (Grows.alloc h .zero).extends le_rfl hn) hd
      obtain ⟨data, h₂, hdata, hgrows, hvalue⟩ := cloneData_spec ih hd'
      obtain ⟨hgrows', hvalue'⟩ := fill_spec hgrows hvalue node.name node.affects
      exact ⟨h.next, _, by simp [akFormClone, hnode, hdata], hgrows', hvalue'⟩

section Constructors

variable {depth : Nat} {h : Heap Node} {inner : Nat} {t : FormTree}

theorem newAround_spec (hinner : value formTree h.cells depth inner = some t) (name : Option String)
    (data : Option Nat → Data (Option Nat) Nat) (d : FormTree → Data FormTree FormTree)
    (hdata : ∀ f p, readInner f p = some t → (data p).read f = some (d t)) :
    Stores h (newAround depth h name data (some inner)) (depth + 1) (.node name (d t) []) := by
  have hinner' := value_mono (Grows.alloc h .zero).extends le_rfl hinner
  obtain ⟨copy, h₂, hcopy, hgrows, hvalue⟩ := (akFormClone_copies depth).2 _ inner t hinner'
  obtain ⟨hgrows', hvalue'⟩ := fill_spec hgrows (hdata _ (some copy) hvalue) name []
  exact ⟨_, _, by simp [newAround, hcopy], hgrows', hvalue'⟩

theorem akFormNewCompound_spec {parts : List Nat} {ts : List FormTree}
    (hparts : parts.mapM (value formTree h.cells depth) = some ts) :
    Stores h (akFormNewCompound depth h (some (parts.map some))) (depth + 1) (.node none (.compound ts) []) := by
  have hparts' := mapM_mono (fun n s hn => value_mono (Grows.alloc h .zero).extends le_rfl hn) hparts
  obtain ⟨clones, h₂, hclones, hgrows, hvalues⟩ := cloneParts_spec (akFormClone_copies depth) hparts'
  have hdata : (Data.compound clones).read (value formTree (above (h.next + 1) h₂.cells) depth) = some (.compound ts) :=
    Option.map_eq_some_iff.mpr ⟨ts, hvalues, rfl⟩
  obtain ⟨hgrows', hvalue'⟩ := fill_spec hgrows hdata none []
  have hall : (parts.map some).reduceOption = parts := by simp [List.reduceOption]
  exact ⟨_, _, by simp [akFormNewCompound, hall, hclones], hgrows', hvalue'⟩

end Constructors

def Same (cells : Nat → Option Node) (p q : Option Nat) : Prop :=
  ∃ depth t, readInner (value formTree cells depth) p = some t ∧ readInner (value formTree cells depth) q = some t

inductive SameData (cells : Nat → Option Node) : Data (Option Nat) Nat → Data (Option Nat) Nat → Prop
  | primitive (type : PrimitiveType) : SameData cells (.primitive type) (.primitive type)
  | compound {parts₁ parts₂ : List Nat} (h : List.Forall₂ (fun p q => Same cells (some p) (some q)) parts₁ parts₂) :
    SameData cells (.compound parts₁) (.compound parts₂)
  | optional {inner₁ inner₂ : Option Nat} (h : Same cells inner₁ inner₂) :
    SameData cells (.optional inner₁) (.optional inner₂)
  | repeatable {inner₁ inner₂ : Option Nat} (h : Same cells inner₁ inner₂) :
    SameData cells (.repeatable inner₁) (.repeatable inner₂)
  | struct {pattern₁ pattern₂ : Option Nat} (h : Same cells pattern₁ pattern₂) (fieldNames : List String) :
    SameData cells (.struct pattern₁ fieldNames) (.struct pattern₂ fieldNames)
  | list {elementType₁ elementType₂ : Option Nat} (h : Same cells elementType₁ elementType₂) :
    SameData cells (.list elementType₁) (.list elementType₂)
  | map {valueType₁ valueType₂ : Option Nat} (keyType : PrimitiveType) (h : Same cells valueType₁ valueType₂) :
    SameData cells (.map keyType valueType₁) (.map keyType valueType₂)
  | named {actualForm₁ actualForm₂ : Option Nat} (h : Same cells actualForm₁ actualForm₂) :
    SameData cells (.named actualForm₁) (.named actualForm₂)

section Queries

variable {h : Heap Node} {cells : Nat → Option Node} {depth : Nat} {m n : Nat} {p q p' q' : Option Nat}

theorem forall₂_of_mapM {parts₁ parts₂ : List Nat} {ts : List FormTree}
    (h₁ : parts₁.mapM (value formTree cells depth) = some ts)
    (h₂ : parts₂.mapM (value formTree cells depth) = some ts) :
    List.Forall₂ (fun p q => Same cells (some p) (some q)) parts₁ parts₂ := by
  rw [mapM_eq_some_iff] at h₁ h₂
  induction h₁ generalizing parts₂ with
  | nil =>
      cases h₂
      exact .nil
  | cons hpart hparts ih =>
      cases h₂ with
      | cons hpart₂ hparts₂ => exact .cons ⟨depth, _, hpart, hpart₂⟩ (ih hparts₂)

theorem sameData_of_read {data₁ data₂ : Data (Option Nat) Nat} {d : Data FormTree FormTree}
    (h₁ : data₁.read (value formTree cells depth) = some d) (h₂ : data₂.read (value formTree cells depth) = some d) :
    SameData cells data₁ data₂ := by
  cases d with
  | primitive type =>
      cases data₁ <;> simp [Data.read] at h₁
      cases data₂ <;> simp [Data.read] at h₂
      subst h₁ h₂
      exact .primitive _
  | compound ts =>
      cases data₁ <;> simp [Data.read] at h₁
      cases data₂ <;> simp [Data.read] at h₂
      exact .compound (forall₂_of_mapM h₁ h₂)
  | optional t =>
      cases data₁ <;> simp [Data.read] at h₁
      cases data₂ <;> simp [Data.read] at h₂
      exact .optional ⟨depth, t, h₁, h₂⟩
  | repeatable t =>
      cases data₁ <;> simp [Data.read] at h₁
      cases data₂ <;> simp [Data.read] at h₂
      exact .repeatable ⟨depth, t, h₁, h₂⟩
  | struct t fieldNames =>
      cases data₁ <;> simp [Data.read] at h₁
      cases data₂ <;> simp [Data.read] at h₂
      obtain ⟨h₁, rfl⟩ := h₁
      obtain ⟨h₂, rfl⟩ := h₂
      exact .struct ⟨depth, t, h₁, h₂⟩ _
  | list t =>
      cases data₁ <;> simp [Data.read] at h₁
      cases data₂ <;> simp [Data.read] at h₂
      exact .list ⟨depth, t, h₁, h₂⟩
  | map keyType t =>
      cases data₁ <;> simp [Data.read] at h₁
      cases data₂ <;> simp [Data.read] at h₂
      obtain ⟨h₁, rfl⟩ := h₁
      obtain ⟨h₂, rfl⟩ := h₂
      exact .map _ ⟨depth, t, h₁, h₂⟩
  | named t =>
      cases data₁ <;> simp [Data.read] at h₁
      cases data₂ <;> simp [Data.read] at h₂
      exact .named ⟨depth, t, h₁, h₂⟩

theorem Same.nodes (hsame : Same cells (some m) (some n)) :
    ∃ node₁ node₂, cells m = some node₁ ∧ cells n = some node₂ ∧ node₁.affects = node₂.affects ∧
      SameData cells node₁.data node₂.data := by
  obtain ⟨depth, t, h₁, h₂⟩ := hsame
  cases depth with
  | zero => cases h₁
  | succ depth =>
      obtain ⟨node₁, hnode₁, hread₁⟩ := Option.bind_eq_some_iff.mp h₁
      obtain ⟨node₂, hnode₂, hread₂⟩ := Option.bind_eq_some_iff.mp h₂
      obtain ⟨d, hd₁, rfl⟩ := Option.map_eq_some_iff.mp hread₁
      obtain ⟨d', hd₂, heq⟩ := Option.map_eq_some_iff.mp hread₂
      simp only [FormTree.node.injEq] at heq
      obtain ⟨-, rfl, haffects⟩ := heq
      exact ⟨node₁, node₂, hnode₁, hnode₂, haffects.symm, sameData_of_read hd₁ hd₂⟩

theorem Same.cases (hsame : Same cells p q) :
    (p = none ∧ q = none) ∨ ∃ m n, p = some m ∧ q = some n ∧ Same cells (some m) (some n) := by
  obtain ⟨depth, t, h₁, h₂⟩ := hsame
  have hthere : ∀ {n : Nat}, value formTree cells depth n ≠ some .missing := by
    intro n hvalue
    cases depth with
    | zero => cases hvalue
    | succ depth =>
        obtain ⟨node, -, hread⟩ := Option.bind_eq_some_iff.mp hvalue
        obtain ⟨d, -, hnode⟩ := Option.map_eq_some_iff.mp hread
        cases hnode
  cases p with
  | none =>
      cases h₁
      cases q with
      | none => exact .inl ⟨rfl, rfl⟩
      | some n => exact absurd h₂ hthere
  | some m =>
      cases q with
      | none =>
          cases h₂
          exact absurd h₁ hthere
      | some n => exact .inr ⟨m, n, rfl, rfl, depth, t, h₁, h₂⟩

theorem Same.current (hsame : Same h.cells (some m) (some n)) :
    (current h m = none ∧ current h n = none) ∨
      ∃ node₁ node₂, current h m = some node₁ ∧ current h n = some node₂ ∧ node₁.affects = node₂.affects ∧
        SameData h.cells node₁.data node₂.data := by
  obtain ⟨node₁, node₂, hnode₁, hnode₂, haffects, hdata⟩ := hsame.nodes
  obtain ⟨name₁, data₁, affects₁⟩ := node₁
  obtain ⟨name₂, data₂, affects₂⟩ := node₂
  cases hdata with
  | named hactual =>
      rcases hactual.cases with ⟨rfl, rfl⟩ | ⟨m', n', rfl, rfl, hactual⟩
      · exact .inl ⟨by simp [FormsMemory.current, hnode₁], by simp [FormsMemory.current, hnode₂]⟩
      · obtain ⟨actual₁, actual₂, hactual₁, hactual₂, hrest⟩ := hactual.nodes
        exact .inr ⟨actual₁, actual₂, by simp [FormsMemory.current, hnode₁, hactual₁],
          by simp [FormsMemory.current, hnode₂, hactual₂], hrest⟩
  | primitive | compound | optional | repeatable | struct | list | map =>
      exact .inr ⟨_, _, by rw [FormsMemory.current, hnode₁]; rfl, by rw [FormsMemory.current, hnode₂]; rfl, haffects,
        by constructor <;> assumption⟩

theorem partsEqual_congr {equal : Option Nat → Option Nat → Option Bool}
    (hequal : ∀ p q p' q', Same cells p p' → Same cells q q' → equal p q = equal p' q')
    {parts₁ parts₂ parts₁' parts₂' : List Nat}
    (h₁ : List.Forall₂ (fun p q => Same cells (some p) (some q)) parts₁ parts₁')
    (h₂ : List.Forall₂ (fun p q => Same cells (some p) (some q)) parts₂ parts₂') :
    partsEqual equal parts₁ parts₂ = partsEqual equal parts₁' parts₂' := by
  induction h₁ generalizing parts₂ parts₂' with
  | nil => rfl
  | cons hpart hparts ih =>
      cases h₂ with
      | nil => rfl
      | cons hpart₂ hparts₂ =>
          rw [partsEqual, partsEqual, hequal _ _ _ _ hpart hpart₂, ih hparts₂]

theorem kindsEqual_congr {equal : Option Nat → Option Nat → Option Bool}
    (hequal : ∀ p q p' q', Same cells p p' → Same cells q q' → equal p q = equal p' q')
    {data₁ data₂ data₁' data₂' : Data (Option Nat) Nat} (h₁ : SameData cells data₁ data₁')
    (h₂ : SameData cells data₂ data₂') : kindsEqual equal data₁ data₂ = kindsEqual equal data₁' data₂' := by
  cases h₁ with
  | primitive type => cases h₂ <;> rfl
  | compound hparts =>
      cases h₂ with
      | compound hparts₂ =>
          rw [kindsEqual, kindsEqual, hparts.length_eq, hparts₂.length_eq, partsEqual_congr hequal hparts hparts₂]
      | primitive | optional | repeatable | struct | list | map | named => rfl
  | optional hinner =>
      cases h₂ with
      | optional hinner₂ => exact hequal _ _ _ _ hinner hinner₂
      | primitive | compound | repeatable | struct | list | map | named => rfl
  | repeatable hinner =>
      cases h₂ with
      | repeatable hinner₂ => exact hequal _ _ _ _ hinner hinner₂
      | primitive | compound | optional | struct | list | map | named => rfl
  | struct hinner fieldNames =>
      cases h₂ with
      | struct hinner₂ fieldNames₂ => rw [kindsEqual, kindsEqual, hequal _ _ _ _ hinner hinner₂]
      | primitive | compound | optional | repeatable | list | map | named => rfl
  | list hinner =>
      cases h₂ with
      | list hinner₂ => exact hequal _ _ _ _ hinner hinner₂
      | primitive | compound | optional | repeatable | struct | map | named => rfl
  | map keyType hinner =>
      cases h₂ with
      | map keyType₂ hinner₂ => rw [kindsEqual, kindsEqual, hequal _ _ _ _ hinner hinner₂]
      | primitive | compound | optional | repeatable | struct | list | named => rfl
  | named hinner => cases h₂ <;> rfl

theorem formsStructurallyEqual_congr (fuel : Nat) (hp : Same h.cells p p') (hq : Same h.cells q q') :
    formsStructurallyEqual h fuel p q = formsStructurallyEqual h fuel p' q' := by
  induction fuel generalizing p q p' q' with
  | zero =>
      rcases hp.cases with ⟨rfl, rfl⟩ | ⟨m, m', rfl, rfl, -⟩
      · rfl
      · rcases hq.cases with ⟨rfl, rfl⟩ | ⟨n, n', rfl, rfl, -⟩
        · rfl
        · rfl
  | succ fuel ih =>
      rcases hp.cases with ⟨rfl, rfl⟩ | ⟨m, m', rfl, rfl, hm⟩
      · rfl
      · rcases hq.cases with ⟨rfl, rfl⟩ | ⟨n, n', rfl, rfl, hn⟩
        · rfl
        · rw [formsStructurallyEqual, formsStructurallyEqual]
          rcases hm.current with ⟨hcur, hcur'⟩ | ⟨node₁, node₁', hcur, hcur', -, hdata⟩
          · rw [hcur, hcur']
            rfl
          · rw [hcur, hcur']
            rcases hn.current with ⟨hcur₂, hcur₂'⟩ | ⟨node₂, node₂', hcur₂, hcur₂', -, hdata₂⟩
            · rw [hcur₂, hcur₂']
              rfl
            · rw [hcur₂, hcur₂']
              exact kindsEqual_congr (fun _ _ _ _ => ih) hdata hdata₂

theorem affordances_congr (s : Affects) (hsame : Same h.cells (some m) (some n)) (name : String) :
    akFormHasAffordance h s m name = akFormHasAffordance h s n name ∧
      akFormGetAffordances h s m = akFormGetAffordances h s n := by
  rw [akFormHasAffordance, akFormHasAffordance, akFormGetAffect, akFormGetAffect, formHasStructuralAffordance,
    formHasStructuralAffordance, akFormGetAffordances, akFormGetAffordances]
  rcases hsame.current with ⟨hcur, hcur'⟩ | ⟨node₁, node₂, hcur, hcur', haffects, hdata⟩
  · rw [hcur, hcur']
    exact ⟨rfl, rfl⟩
  · rw [hcur, hcur']
    obtain ⟨name₁, data₁, affects₁⟩ := node₁
    obtain ⟨name₂, data₂, affects₂⟩ := node₂
    obtain rfl : affects₁ = affects₂ := haffects
    dsimp only at hdata
    cases hdata <;> exact ⟨rfl, rfl⟩

end Queries

/-- The queries answer the same on two forms, whatever they are asked with. -/
def Alike (h : Heap Node) (form₁ form₂ : Nat) : Prop :=
  (∀ fuel other depth u, value formTree h.cells depth other = some u →
    akFormIsCompatible h fuel (some form₁) (some other) = akFormIsCompatible h fuel (some form₂) (some other) ∧
    akFormIsCompatible h fuel (some other) (some form₁) = akFormIsCompatible h fuel (some other) (some form₂)) ∧
  ∀ s name, akFormHasAffordance h s form₁ name = akFormHasAffordance h s form₂ name ∧
    akFormGetAffordances h s form₁ = akFormGetAffordances h s form₂

theorem alike_of_same {h : Heap Node} {form₁ form₂ : Nat} (hsame : Same h.cells (some form₁) (some form₂)) :
    Alike h form₁ form₂ := by
  refine ⟨fun fuel other depth u hother => ?_, fun s name => affordances_congr s hsame name⟩
  have hself : Same h.cells (some other) (some other) := ⟨depth, u, hother, hother⟩
  exact ⟨formsStructurallyEqual_congr fuel hsame hself, formsStructurallyEqual_congr fuel hself hsame⟩

/-- The copy of a form, and what each constructor stores of the forms it is given. -/
theorem akFormClone_faithful (h : Heap Node) (form depth : Nat) (t : FormTree)
    (hform : value formTree h.cells depth form = some t) :
    (∃ copy h', akFormClone depth h (some form) = some (some copy, h') ∧ Grows h h' ∧
      value formTree (above h.next h'.cells) depth copy = some t ∧ value formTree h'.cells depth form = some t ∧
      Alike h' copy form) ∧
    (∀ type, Stores h (some (akFormNewPrimitive h type)) 1 (.node none (.primitive type) [])) ∧
    (∀ (parts : List Nat) ts, parts.mapM (value formTree h.cells depth) = some ts →
      Stores h (akFormNewCompound depth h (some (parts.map some))) (depth + 1) (.node none (.compound ts) [])) ∧
    Stores h (akFormNewOptional depth h (some form)) (depth + 1) (.node none (.optional t) []) ∧
    Stores h (akFormNewRepeatable depth h (some form)) (depth + 1) (.node none (.repeatable t) []) ∧
    (∀ fieldNames, Stores h (akFormNewStruct depth h (some form) (some fieldNames)) (depth + 1)
      (.node none (.struct t fieldNames) [])) ∧
    Stores h (akFormNewList depth h (some form)) (depth + 1) (.node none (.list t) []) ∧
    (∀ keyType, Stores h (akFormNewMap depth h keyType (some form)) (depth + 1) (.node none (.map keyType t) [])) ∧
    ∀ name, Stores h (akFormNewNamed depth h (some name) (some form)) (depth + 1) (.node (some name) (.named t) []) := by
  refine ⟨?_, fun type => ?_, fun parts ts => akFormNewCompound_spec, ?_, ?_, fun fieldNames => ?_, ?_,
    fun keyType => ?_, fun name => ?_⟩
  · obtain ⟨copy, h', hcopy, hgrows, hvalue⟩ := (akFormClone_copies depth).2 h form t hform
    have hform' := value_mono hgrows.extends le_rfl hform
    have hcopy' := value_mono (above_extends h.next h'.cells) le_rfl hvalue
    exact ⟨copy, h', hcopy, hgrows, hvalue, hform', alike_of_same ⟨depth, t, hcopy', hform'⟩⟩
  · refine ⟨h.next, _, rfl, Grows.alloc h _, ?_⟩
    rw [value, above, if_pos le_rfl, Heap.alloc_self]
    rfl
  · exact newAround_spec hform none .optional .optional fun f p hp => by rw [Data.read, hp, Option.map_some]
  · exact newAround_spec hform none .repeatable .repeatable fun f p hp => by rw [Data.read, hp, Option.map_some]
  · exact newAround_spec hform none (.struct · fieldNames) (.struct · fieldNames)
      fun f p hp => by rw [Data.read, hp, Option.map_some]
  · exact newAround_spec hform none .list .list fun f p hp => by rw [Data.read, hp, Option.map_some]
  · exact newAround_spec hform none (.map keyType) (.map keyType)
      fun f p hp => by rw [Data.read, hp, Option.map_some]
  · exact newAround_spec hform (some name) .named .named fun f p hp => by rw [Data.read, hp, Option.map_some]

/-- A list of structures, whose pattern has a name and an affect of its own. -/
theorem akFormClone_faithful_struct : ∃ (h : Heap Node) (t : FormTree),
    value formTree h.cells 3 2 = some t ∧
    t = .node none (.list (.node none (.struct (.node (some "Key") (.primitive .u64) [7]) ["id"]) [])) [] ∧
    ∃ copy h', akFormClone 3 h (some 2) = some (some copy, h') ∧ copy ≠ 2 ∧
      value formTree h'.cells 3 copy = some t ∧ Alike h' copy 2 := by
  let h := (((Heap.empty Node).alloc ⟨some "Key", .primitive .u64, [7]⟩).alloc ⟨none, .struct (some 0) ["id"], []⟩).alloc
    ⟨none, .list (some 1), []⟩
  obtain ⟨⟨copy, h', hcopy, -, hvalue, -, halike⟩, -⟩ := akFormClone_faithful h 2 3 _ rfl
  refine ⟨h, _, rfl, rfl, copy, h', hcopy, ?_, value_mono (above_extends h.next h'.cells) le_rfl hvalue, halike⟩
  rintro rfl
  cases hvalue

end Ak24.FormsClone
