import Ak24.ContextScoping
import Ak24.FormsModel
import Ak24.MapIteration
import Ak24.RuntimeModel

namespace Ak24.RootForms

open MapModel MapRefinement MapIteration Objects Transition ContextScoping
open FormsModel (PrimitiveType)
open RuntimeModel (ascii)

structure World where
  roots : Heap (MapBase (List UInt8) Nat)
  forms : Heap PrimitiveType

def World.start : World := ⟨Heap.empty _, Heap.empty _⟩

def akRootFormCtxNew (w : World) (granted : Bool) : Option Nat × World :=
  if granted then (some w.roots.next, { w with roots := w.roots.alloc (mapInit _ _) }) else (none, w)

/-- A form that is not there cannot be freed. -/
def akFormFree (forms : Heap PrimitiveType) (form : Nat) : Option (Heap PrimitiveType) :=
  (forms.cells form).map fun _ => forms.free form

def freeForms (data : MapBase (List UInt8) Nat) : Nat → MapIter → Heap PrimitiveType → Option (Heap PrimitiveType)
  | 0, _, _ => none
  | fuel + 1, iter, forms => do
    let (key, iter) ← mapNext data iter
    match key with
    | none => some forms
    | some key =>
      match ← mapGet stringOps data key with
      | none => freeForms data fuel iter forms
      | some form => freeForms data fuel iter (← akFormFree forms form)

/-- `none` is the use of a root that is not there, or a form freed twice. -/
def akRootFormCtxFree (w : World) (root : Option Nat) : Option World :=
  match root with
  | none => some w
  | some r => do
    let data ← w.roots.cells r
    let forms ← freeForms data (data.nnodes.toNat + 1) mapIter w.forms
    some ⟨w.roots.free r, forms⟩

section Getters

variable (w : World) (root : Option Nat)

def rootFormCtxGetOrCreate (name : List UInt8) (type : PrimitiveType) (created : Bool) (grants : Grants) :
    Option (Option Nat × World) :=
  match root with
  | none => some (none, w)
  | some r => do
    let data ← w.roots.cells r
    match ← mapGet stringOps data name with
    | some form => some (some form, w)
    | none =>
      if !created then some (none, w)
      else
        let form := w.forms.next
        let forms := w.forms.alloc type
        let (code, data) ← mapSet stringOps data name form grants
        if code ≠ 0 then (akFormFree forms form).map fun forms => (none, ⟨w.roots.store r data, forms⟩)
        else some (some form, ⟨w.roots.store r data, forms⟩)

variable (created : Bool) (grants : Grants)

def akRootFormCtxGetBool := rootFormCtxGetOrCreate w root (ascii "bool") .u8 created grants

def akRootFormCtxGetU8 := rootFormCtxGetOrCreate w root (ascii "u8") .u8 created grants

def akRootFormCtxGetU16 := rootFormCtxGetOrCreate w root (ascii "u16") .u16 created grants

def akRootFormCtxGetU32 := rootFormCtxGetOrCreate w root (ascii "u32") .u32 created grants

def akRootFormCtxGetU64 := rootFormCtxGetOrCreate w root (ascii "u64") .u64 created grants

def akRootFormCtxGetI8 := rootFormCtxGetOrCreate w root (ascii "i8") .i8 created grants

def akRootFormCtxGetI16 := rootFormCtxGetOrCreate w root (ascii "i16") .i16 created grants

def akRootFormCtxGetI32 := rootFormCtxGetOrCreate w root (ascii "i32") .i32 created grants

def akRootFormCtxGetI64 := rootFormCtxGetOrCreate w root (ascii "i64") .i64 created grants

def akRootFormCtxGetF32 := rootFormCtxGetOrCreate w root (ascii "f32") .f32 created grants

def akRootFormCtxGetF64 := rootFormCtxGetOrCreate w root (ascii "f64") .f64 created grants

end Getters

inductive Kind
  | bool
  | u8
  | u16
  | u32
  | u64
  | i8
  | i16
  | i32
  | i64
  | f32
  | f64
  deriving DecidableEq, Repr

def akRootFormCtxGet (w : World) (root : Option Nat) (created : Bool) (grants : Grants) :
    Kind → Option (Option Nat × World)
  | .bool => akRootFormCtxGetBool w root created grants
  | .u8 => akRootFormCtxGetU8 w root created grants
  | .u16 => akRootFormCtxGetU16 w root created grants
  | .u32 => akRootFormCtxGetU32 w root created grants
  | .u64 => akRootFormCtxGetU64 w root created grants
  | .i8 => akRootFormCtxGetI8 w root created grants
  | .i16 => akRootFormCtxGetI16 w root created grants
  | .i32 => akRootFormCtxGetI32 w root created grants
  | .i64 => akRootFormCtxGetI64 w root created grants
  | .f32 => akRootFormCtxGetF32 w root created grants
  | .f64 => akRootFormCtxGetF64 w root created grants

inductive Call
  | new (granted : Bool)
  | get (root : Option Nat) (kind : Kind) (created : Bool) (grants : Grants)
  | free (root : Option Nat)

inductive Ret
  | root (r : Option Nat)
  | form (form : Option Nat)
  | done

def exec (w : World) : Call → Option (Ret × World)
  | .new granted =>
    let (r, w) := akRootFormCtxNew w granted
    some (.root r, w)
  | .get root kind created grants => (akRootFormCtxGet w root created grants kind).map fun r => (.form r.1, r.2)
  | .free root => (akRootFormCtxFree w root).map fun w => (.done, w)

def Step (w : World) (events : List (Call × Ret)) (w' : World) : Prop :=
  ∃ call ret, events = [(call, ret)] ∧ exec w call = some (ret, w')

abbrev Owned := Nat → Kind → Option Nat

def Owned.after (owned : Owned) : Call × Ret → Owned
  | (.get (some r) kind _ _, .form (some form)) =>
    Function.update owned r (Function.update (owned r) kind (some form))
  | (.free (some r), _) => Function.update owned r fun _ => none
  | _ => owned

def owned (trace : List (Call × Ret)) : Owned := trace.foldl Owned.after fun _ _ => none

def Kind.name : Kind → List UInt8
  | .bool => ascii "bool"
  | .u8 => ascii "u8"
  | .u16 => ascii "u16"
  | .u32 => ascii "u32"
  | .u64 => ascii "u64"
  | .i8 => ascii "i8"
  | .i16 => ascii "i16"
  | .i32 => ascii "i32"
  | .i64 => ascii "i64"
  | .f32 => ascii "f32"
  | .f64 => ascii "f64"

def Kind.type : Kind → PrimitiveType
  | .bool | .u8 => .u8
  | .u16 => .u16
  | .u32 => .u32
  | .u64 => .u64
  | .i8 => .i8
  | .i16 => .i16
  | .i32 => .i32
  | .i64 => .i64
  | .f32 => .f32
  | .f64 => .f64

theorem akRootFormCtxGet_eq (w : World) (root : Option Nat) (created : Bool) (grants : Grants) (kind : Kind) :
    akRootFormCtxGet w root created grants kind =
      rootFormCtxGetOrCreate w root kind.name kind.type created grants := by
  cases kind <;> rfl

def kinds : List Kind := [.bool, .u8, .u16, .u32, .u64, .i8, .i16, .i32, .i64, .f32, .f64]

theorem mem_kinds (kind : Kind) : kind ∈ kinds := by
  cases kind <;> decide

theorem name_injective : Function.Injective Kind.name := by
  intro a b h
  revert h
  cases a <;> cases b <;> decide

section Tables

structure Table (data : MapBase (List UInt8) Nat) (row : Kind → Option Nat) : Prop where
  valid : Valid stringOps data
  named : ∀ node ∈ contents data, ∃ kind : Kind, node.key = kind.name
  holds : ∀ kind form, Holds stringOps data kind.name form ↔ row kind = some form

variable {data data' : MapBase (List UInt8) Nat} {row : Kind → Option Nat} {kind : Kind} {form : Nat}

theorem cmp_name {a b : Kind} : stringOps.cmp a.name b.name = 0 ↔ a = b :=
  mapCmpStr_eq_zero.trans name_injective.eq_iff

theorem table_init : Table (mapInit (List UInt8) Nat) fun _ => none where
  valid := represents_init.valid
  named := nofun
  holds := by simp [Holds, contents, mapInit]

theorem Table.get (h : Table data row) (kind : Kind) : mapGet stringOps data kind.name = some (row kind) := by
  obtain ⟨r, hget, hr⟩ := mapGet_spec h.valid kind.name
  rw [hget, Option.some.injEq]
  ext form
  rw [hr, h.holds]

theorem Table.small (h : Table data row) : data.nnodes.toNat < 2 ^ 30 := by
  have hnodup : ((contents data).map MapNode.key).Nodup := by
    rw [List.Nodup, List.pairwise_map]
    exact h.valid.distinct.imp fun hne heq => hne (mapCmpStr_eq_zero.mpr heq)
  have hnames : (contents data).map MapNode.key ⊆ kinds.map Kind.name := by
    intro key hkey
    obtain ⟨node, hnode, rfl⟩ := List.mem_map.mp hkey
    obtain ⟨kind, hkind⟩ := h.named node hnode
    exact List.mem_map.mpr ⟨kind, mem_kinds kind, hkind.symm⟩
  have hlength := (List.subperm_of_subset hnodup hnames).length_le
  simp only [List.length_map, kinds, List.length_cons, List.length_nil] at hlength
  rw [h.valid.count]
  omega

theorem Table.set (h : Table data row) (kind : Kind) (form : Nat) (grants : Grants) :
    ∃ code data', mapSet stringOps data kind.name form grants = some (code, data') ∧
      (code = 0 ∧ Table data' (Function.update row kind (some form)) ∨ code ≠ 0 ∧ Table data' row) ∧
      (grants.node = true → grants.buckets = true → code = 0) := by
  obtain ⟨code, data', hset, hvalid, hstored, hcode⟩ := mapSet_spec h.valid kind.name form grants h.small
  refine ⟨code, data', hset, ?_, hcode⟩
  rcases hstored with ⟨rfl, hstored⟩ | ⟨rfl, hstored⟩
  · refine .inl ⟨rfl, hvalid, fun node hnode => ?_, fun k v => ?_⟩
    · have hholds := (hstored node.key node.value).mp (.of_mem hnode)
      split_ifs at hholds with hkey
      · exact ⟨kind, (mapCmpStr_eq_zero.mp hkey).symm⟩
      · obtain ⟨old, hold, hsame, -⟩ := hholds
        obtain ⟨k, hk⟩ := h.named old hold
        exact ⟨k, (mapCmpStr_eq_zero.mp hsame).symm.trans hk⟩
    · rw [hstored, Function.update_apply]
      by_cases hk : k = kind
      · rw [if_pos hk, if_pos (cmp_name.mpr hk.symm), Option.some.injEq, eq_comm]
      · rw [if_neg hk, if_neg fun hsame => hk (cmp_name.mp hsame).symm, h.holds]
  · refine .inr ⟨by decide, hvalid, fun node hnode => ?_, fun k v => (hstored _ _).trans (h.holds k v)⟩
    obtain ⟨old, hold, hsame, -⟩ := (hstored node.key node.value).mp (.of_mem hnode)
    obtain ⟨k, hk⟩ := h.named old hold
    exact ⟨k, (mapCmpStr_eq_zero.mp hsame).symm.trans hk⟩

theorem Table.mem_values (h : Table data row) :
    form ∈ (contents data).map MapNode.value ↔ ∃ kind, row kind = some form := by
  rw [List.mem_map]
  constructor
  · rintro ⟨node, hnode, rfl⟩
    obtain ⟨kind, hkind⟩ := h.named node hnode
    refine ⟨kind, (h.holds kind node.value).mp ?_⟩
    rw [← hkind]
    exact .of_mem hnode
  · rintro ⟨kind, hrow⟩
    obtain ⟨node, hnode, -, hvalue⟩ := (h.holds kind form).mpr hrow
    exact ⟨node, hnode, hvalue⟩

theorem Table.nodup_values (h : Table data row)
    (hsingle : ∀ k k' form, row k = some form → row k' = some form → k = k') :
    ((contents data).map MapNode.value).Nodup := by
  rw [List.Nodup, List.pairwise_map]
  refine h.valid.distinct.imp_of_mem fun {a b} ha hb hne hvalue => ?_
  obtain ⟨k, hk⟩ := h.named a ha
  obtain ⟨k', hk'⟩ := h.named b hb
  have hrow : row k = some a.value := (h.holds k a.value).mp (hk ▸ .of_mem ha)
  have hrow' : row k' = some b.value := (h.holds k' b.value).mp (hk' ▸ .of_mem hb)
  rw [hk, hk', Ne, cmp_name] at hne
  exact hne (hsingle k k' a.value hrow (by rw [hrow', hvalue]))

theorem freeForms_spec (h : Valid stringOps data) {nodes : List (MapNode (List UInt8) Nat)} {fuel : Nat}
    {iter : MapIter} {forms : Heap PrimitiveType} (hstanding : Standing data iter)
    (hnodes : remaining data iter = nodes) (hsub : ∀ node ∈ nodes, node ∈ contents data)
    (hnodup : (nodes.map MapNode.value).Nodup) (halive : ∀ node ∈ nodes, ∃ type, forms.cells node.value = some type)
    (hfuel : nodes.length < fuel) :
    ∃ forms', freeForms data fuel iter forms = some forms' ∧
      ∀ i, forms'.cells i = if i ∈ nodes.map MapNode.value then none else forms.cells i := by
  induction nodes generalizing fuel iter forms with
  | nil =>
      obtain ⟨fuel, rfl⟩ := Nat.exists_eq_add_of_lt hfuel
      obtain ⟨-, hnext⟩ | ⟨node, iter', -, hcons, -⟩ := mapNext_advances h.length hstanding
      · refine ⟨forms, ?_, fun i => by simp⟩
        simp only [freeForms, hnext, bind, Option.bind]
      · rw [hnodes] at hcons
        cases hcons
  | cons node nodes ih =>
      obtain ⟨fuel, rfl⟩ := Nat.exists_eq_succ_of_ne_zero (Nat.ne_of_gt (Nat.zero_lt_of_lt hfuel))
      obtain ⟨hnil, -⟩ | ⟨node', iter', hnext, hcons, hstanding'⟩ := mapNext_advances h.length hstanding
      · rw [hnodes] at hnil
        cases hnil
      · obtain ⟨rfl, hrest⟩ := List.cons.inj (hnodes.symm.trans hcons)
        have hget := (mapGet_eq_some h).mpr (.of_mem (hsub node List.mem_cons_self))
        obtain ⟨type, htype⟩ := halive node List.mem_cons_self
        rw [List.map_cons, List.nodup_cons] at hnodup
        have halive' : ∀ n ∈ nodes, ∃ type, (forms.free node.value).cells n.value = some type := by
          intro n hn
          have hne : n.value ≠ node.value := fun heq => hnodup.1 (List.mem_map.mpr ⟨n, hn, heq⟩)
          rw [Heap.free_of_ne hne]
          exact halive n (List.mem_cons_of_mem _ hn)
        obtain ⟨forms', hfree, hcells⟩ := ih hstanding' hrest.symm
          (fun n hn => hsub n (List.mem_cons_of_mem _ hn)) hnodup.2 halive' (by simpa using hfuel)
        refine ⟨forms', ?_, fun i => ?_⟩
        · simp only [freeForms, hnext, hget, akFormFree, htype, Option.map_some, bind, Option.bind, hfree]
        · rw [hcells, List.map_cons]
          by_cases hi : i = node.value
          · subst i
            simp
          · simp [hi, Heap.free_of_ne hi]

end Tables

section Runs

structure Ok (owned : Owned) (w : World) : Prop where
  tables : ∀ r data, w.roots.cells r = some data → Table data (owned r)
  gone : ∀ r, w.roots.cells r = none → ∀ kind, owned r kind = none
  alive : ∀ form type, w.forms.cells form = some type ↔ ∃ r kind, owned r kind = some form ∧ kind.type = type
  single : ∀ r r' kind kind' form, owned r kind = some form → owned r' kind' = some form → r = r' ∧ kind = kind'

variable {own : Owned} {w w' : World} {r : Nat} {data : MapBase (List UInt8) Nat} {kind : Kind}

theorem Ok.start : Ok (fun _ _ => none) World.start := ⟨nofun, fun _ _ _ => rfl, by simp [World.start], nofun⟩

theorem Ok.unowned (h : Ok own w) (r : Nat) (kind : Kind) : own r kind ≠ some w.forms.next := by
  intro hown
  have halive := (h.alive w.forms.next kind.type).mpr ⟨r, kind, hown, rfl⟩
  rw [w.forms.fresh _ le_rfl] at halive
  cases halive

theorem Ok.new (h : Ok own w) (granted : Bool) : Ok own (akRootFormCtxNew w granted).2 := by
  cases granted with
  | false => exact h
  | true =>
      refine ⟨fun r data hr => ?_, fun r hr => ?_, h.alive, h.single⟩
      · obtain ⟨rfl, rfl⟩ | hold := Heap.alloc_eq_some hr
        · have hrow : own w.roots.next = fun _ => none := funext (h.gone _ (w.roots.fresh _ le_rfl))
          rw [hrow]
          exact table_init
        · exact h.tables r data hold
      · refine h.gone r ?_
        by_contra hne
        obtain ⟨data, hdata⟩ := Option.ne_none_iff_exists'.mp hne
        have hnew := Heap.alloc_old (a := mapInit (List UInt8) Nat) hdata
        exact absurd (hnew.symm.trans hr) nofun

theorem Ok.store (h : Ok own w) (hr : w.roots.cells r = some data) {data' : MapBase (List UInt8) Nat}
    (hdata' : Table data' (own r)) {forms : Heap PrimitiveType} (hforms : forms.cells = w.forms.cells) :
    Ok own ⟨w.roots.store r data', forms⟩ := by
  refine ⟨fun r' d hd => ?_, fun r' hd => ?_, fun form type => ?_, h.single⟩
  · by_cases hsame : r' = r
    · subst r'
      cases (Heap.store_self hr).symm.trans hd
      exact hdata'
    · rw [Heap.store_of_ne hsame] at hd
      exact h.tables r' d hd
  · by_cases hsame : r' = r
    · subst r'
      cases (Heap.store_self hr).symm.trans hd
    · rw [Heap.store_of_ne hsame] at hd
      exact h.gone r' hd
  · simp only [hforms]
    exact h.alive form type

theorem created_iff (hnone : own r kind = none) {form r' form' : Nat} {kind' : Kind} :
    Function.update own r (Function.update (own r) kind (some form)) r' kind' = some form' ↔
      (r' = r ∧ kind' = kind ∧ form' = form) ∨ own r' kind' = some form' := by
  by_cases hr : r' = r
  · subst r'
    rw [Function.update_self]
    by_cases hk : kind' = kind
    · subst kind'
      simp [hnone, eq_comm]
    · simp [hk]
  · simp [hr]

theorem Ok.create (h : Ok own w) (hr : w.roots.cells r = some data) (hnone : own r kind = none)
    {data' : MapBase (List UInt8) Nat} (hdata' : Table data' (Function.update (own r) kind (some w.forms.next))) :
    Ok (Function.update own r (Function.update (own r) kind (some w.forms.next)))
      ⟨w.roots.store r data', w.forms.alloc kind.type⟩ := by
  refine ⟨fun r' d hd => ?_, fun r' hd k => ?_, fun form type => ?_, fun r₁ r₂ k₁ k₂ form h₁ h₂ => ?_⟩
  · by_cases hsame : r' = r
    · subst r'
      cases (Heap.store_self hr).symm.trans hd
      rw [Function.update_self]
      exact hdata'
    · rw [Heap.store_of_ne hsame] at hd
      rw [Function.update_of_ne hsame]
      exact h.tables r' d hd
  · have hsame : r' ≠ r := by
      rintro rfl
      cases (Heap.store_self hr).symm.trans hd
    rw [Heap.store_of_ne hsame] at hd
    rw [Function.update_of_ne hsame]
    exact h.gone r' hd k
  · simp only [created_iff hnone]
    constructor
    · intro hform
      obtain ⟨rfl, rfl⟩ | hold := Heap.alloc_eq_some hform
      · exact ⟨r, kind, .inl ⟨rfl, rfl, rfl⟩, rfl⟩
      · obtain ⟨r', k, hown, htype⟩ := (h.alive form type).mp hold
        exact ⟨r', k, .inr hown, htype⟩
    · rintro ⟨r', k, ⟨rfl, rfl, rfl⟩ | hown, rfl⟩
      · exact Heap.alloc_self _ _
      · exact Heap.alloc_old ((h.alive form _).mpr ⟨r', k, hown, rfl⟩)
  · rw [created_iff hnone] at h₁ h₂
    rcases h₁ with ⟨rfl, rfl, rfl⟩ | h₁
    · rcases h₂ with ⟨rfl, rfl, -⟩ | h₂
      · exact ⟨rfl, rfl⟩
      · exact absurd h₂ (h.unowned _ _)
    · rcases h₂ with ⟨rfl, rfl, rfl⟩ | h₂
      · exact absurd h₁ (h.unowned _ _)
      · exact h.single r₁ r₂ k₁ k₂ form h₁ h₂

structure Answers (own : Owned) (w : World) (r : Nat) (kind : Kind) (created : Bool) (grants : Grants)
    (answer : Option Nat) (w' : World) : Prop where
  found : ∀ form, own r kind = some form → answer = some form ∧ w' = w
  made : own r kind = none → created = true → grants.node = true → grants.buckets = true →
    answer = some w.forms.next
  fresh : own r kind = none → ∀ form, answer = some form → form = w.forms.next

theorem Ok.get (h : Ok own w) (hr : w.roots.cells r = some data) (kind : Kind) (created : Bool) (grants : Grants) :
    ∃ answer w', akRootFormCtxGet w (some r) created grants kind = some (answer, w') ∧
      Ok (own.after (.get (some r) kind created grants, .form answer)) w' ∧
      Answers own w r kind created grants answer w' := by
  have htable := h.tables r data hr
  simp only [akRootFormCtxGet_eq, rootFormCtxGetOrCreate, hr, htable.get, bind, Option.bind]
  cases hown : own r kind with
  | some form =>
      have hafter : own.after (.get (some r) kind created grants, .form (some form)) = own := by
        rw [Owned.after, ← hown, Function.update_eq_self, Function.update_eq_self]
      refine ⟨some form, w, rfl, hafter.symm ▸ h, ?_⟩
      constructor
      · intro old hold
        cases hown.symm.trans hold
        exact ⟨rfl, rfl⟩
      all_goals
        intro hnone
        cases hnone.symm.trans hown
  | none =>
      cases created with
      | false => exact ⟨none, w, rfl, h, by simp [hown], by simp, by simp⟩
      | true =>
          obtain ⟨code, data', hset, htaken, hcode⟩ := htable.set kind w.forms.next grants
          rcases htaken with ⟨rfl, hdata'⟩ | ⟨hfailed, hdata'⟩
          · refine ⟨some w.forms.next, ⟨w.roots.store r data', w.forms.alloc kind.type⟩, by simp [hset],
              h.create hr hown hdata', ?_⟩
            exact ⟨by simp [hown], fun _ _ _ _ => rfl, fun _ form hform => (Option.some.inj hform).symm⟩
          · -- the form that has no place in the table is freed again
            refine ⟨none, ⟨w.roots.store r data', (w.forms.alloc kind.type).free w.forms.next⟩,
              by simp [hset, hfailed, akFormFree], h.store hr hdata' (Heap.alloc_free_cells _ _), ?_⟩
            exact ⟨by simp [hown], fun _ _ hnode hbuckets => absurd (hcode hnode hbuckets) hfailed, by simp⟩

theorem freed_iff {form r' : Nat} {kind' : Kind} :
    Function.update own r (fun _ => none) r' kind' = some form ↔ r' ≠ r ∧ own r' kind' = some form := by
  by_cases hr : r' = r
  · subst r'
    simp
  · simp [hr]

theorem Ok.free (h : Ok own w) (hr : w.roots.cells r = some data) :
    ∃ w', akRootFormCtxFree w (some r) = some w' ∧ Ok (own.after (.free (some r), .done)) w' := by
  have htable := h.tables r data hr
  have halive : ∀ node ∈ contents data, ∃ type, w.forms.cells node.value = some type := by
    intro node hnode
    obtain ⟨k, hown⟩ := htable.mem_values.mp (List.mem_map_of_mem hnode)
    exact ⟨k.type, (h.alive _ _).mpr ⟨r, k, hown, rfl⟩⟩
  have hnodup := htable.nodup_values fun k k' form hk hk' => (h.single r r k k' form hk hk').2
  have hfuel : (contents data).length < data.nnodes.toNat + 1 := by
    rw [htable.valid.count]
    exact Nat.lt_succ_self _
  obtain ⟨forms, hfree, hcells⟩ :=
    freeForms_spec htable.valid standing_mapIter remaining_mapIter (fun _ => id) hnodup halive hfuel
  refine ⟨⟨w.roots.free r, forms⟩, ?_, fun r' d hd => ?_, fun r' hd k => ?_, fun form type => ?_,
    fun r₁ r₂ k₁ k₂ form h₁ h₂ => ?_⟩
  · simp [akRootFormCtxFree, hr, hfree]
  · obtain ⟨hsame, hold⟩ := Heap.free_eq_some hd
    rw [Owned.after, Function.update_of_ne hsame]
    exact h.tables r' d hold
  · by_cases hsame : r' = r
    · subst r'
      rw [Owned.after, Function.update_self]
    · rw [Heap.free_of_ne hsame] at hd
      rw [Owned.after, Function.update_of_ne hsame]
      exact h.gone r' hd k
  · simp only [Owned.after, freed_iff, hcells]
    constructor
    · intro hform
      split_ifs at hform with hgone
      obtain ⟨r', k, hown, htype⟩ := (h.alive form type).mp hform
      refine ⟨r', k, ⟨?_, hown⟩, htype⟩
      rintro rfl
      exact hgone (htable.mem_values.mpr ⟨k, hown⟩)
    · rintro ⟨r', k, ⟨hne, hown⟩, rfl⟩
      rw [if_neg]
      · exact (h.alive form _).mpr ⟨r', k, hown, rfl⟩
      · intro hgone
        obtain ⟨k', hown'⟩ := htable.mem_values.mp hgone
        exact hne (h.single r' r k k' form hown hown').1
  · simp only [Owned.after, freed_iff] at h₁ h₂
    exact h.single r₁ r₂ k₁ k₂ form h₁.2 h₂.2

theorem Ok.step (h : Ok own w) {call : Call} {ret : Ret} (hexec : exec w call = some (ret, w')) :
    Ok (own.after (call, ret)) w' := by
  cases call with
  | new granted =>
      cases hexec
      exact h.new granted
  | get root kind created grants =>
      cases root with
      | none =>
          simp only [exec, akRootFormCtxGet_eq, rootFormCtxGetOrCreate] at hexec
          cases hexec
          exact h
      | some r =>
          cases hr : w.roots.cells r with
          | none => simp [exec, akRootFormCtxGet_eq, rootFormCtxGetOrCreate, hr] at hexec
          | some data =>
              obtain ⟨answer, w₁, hget, hok, -⟩ := h.get hr kind created grants
              rw [exec, hget] at hexec
              cases hexec
              exact hok
  | free root =>
      cases root with
      | none =>
          cases hexec
          exact h
      | some r =>
          cases hr : w.roots.cells r with
          | none => simp [exec, akRootFormCtxFree, hr] at hexec
          | some data =>
              obtain ⟨w₁, hfree, hok⟩ := h.free hr
              rw [exec, hfree] at hexec
              cases hexec
              exact hok

theorem ok_of_run {trace : List (Call × Ret)} (hrun : Run Step World.start trace w) : Ok (owned trace) w := by
  apply hrun.invariant (P := fun trace w => Ok (owned trace) w)
  · exact .start
  · rintro trace w events w' h ⟨call, ret, rfl, hexec⟩
    rw [owned, List.foldl_append]
    exact h.step hexec

variable {trace : List (Call × Ret)}

/-- In every run a root gives one form for each kind, until it is freed; the forms
in memory are exactly those that roots own, each of the type of its kind and for
one root and one kind; no call on a root that is there frees a form twice or uses
a freed one, and a free leaves none of the root's forms. -/
theorem root_forms_owned (hrun : Run Step World.start trace w) :
    (∀ form type, w.forms.cells form = some type ↔ ∃ r kind, owned trace r kind = some form ∧ kind.type = type) ∧
      (∀ r r' kind kind' form, owned trace r kind = some form → owned trace r' kind' = some form →
        r = r' ∧ kind = kind') ∧
      (∀ r, w.roots.cells r = none → ∀ kind, owned trace r kind = none) ∧
      ∀ r data, w.roots.cells r = some data →
        (∀ kind created grants, ∃ answer w', akRootFormCtxGet w (some r) created grants kind = some (answer, w') ∧
          Answers (owned trace) w r kind created grants answer w') ∧
        ∃ w', akRootFormCtxFree w (some r) = some w' ∧
          ∀ form type, w'.forms.cells form = some type ↔
            w.forms.cells form = some type ∧ ∀ kind, owned trace r kind ≠ some form := by
  have h := ok_of_run hrun
  refine ⟨h.alive, h.single, h.gone, fun r data hr => ⟨fun kind created grants => ?_, ?_⟩⟩
  · obtain ⟨answer, w', hget, -, hanswers⟩ := h.get hr kind created grants
    exact ⟨answer, w', hget, hanswers⟩
  · obtain ⟨w', hfree, hok⟩ := h.free hr
    refine ⟨w', hfree, fun form type => ?_⟩
    rw [hok.alive, h.alive]
    simp only [Owned.after, freed_iff]
    constructor
    · rintro ⟨r', k, ⟨hne, hown⟩, rfl⟩
      exact ⟨⟨r', k, hown, rfl⟩, fun k' hown' => hne (h.single r' r k k' form hown hown').1⟩
    · rintro ⟨⟨r', k, hown, rfl⟩, hother⟩
      refine ⟨r', k, ⟨?_, hown⟩, rfl⟩
      rintro rfl
      exact hother k hown

/-- A root that has given two forms is freed with both of them. -/
theorem root_forms_owned_two : ∃ trace w, Run Step World.start trace w ∧ owned trace 0 .bool = some 0 ∧
    owned trace 0 .u8 = some 1 ∧ ∃ w', akRootFormCtxFree w (some 0) = some w' ∧ ∀ form, w'.forms.cells form = none := by
  have r₁ : Run Step World.start _ _ := .next .start ⟨.new true, .root (some 0), rfl, rfl⟩
  have r₂ := r₁.next ⟨.get (some 0) .bool true ⟨true, true⟩, .form (some 0), rfl, rfl⟩
  have r₃ := r₂.next ⟨.get (some 0) .u8 true ⟨true, true⟩, .form (some 1), rfl, rfl⟩
  obtain ⟨halive, -, -, hroots⟩ := root_forms_owned r₃
  obtain ⟨-, w', hfree, hleft⟩ := hroots 0 _ rfl
  refine ⟨_, _, r₃, rfl, rfl, w', hfree, fun form => ?_⟩
  by_contra hne
  obtain ⟨type, htype⟩ := Option.ne_none_iff_exists'.mp hne
  obtain ⟨hform, hother⟩ := (hleft form type).mp htype
  obtain ⟨r, kind, hown, -⟩ := (halive form type).mp hform
  have hr : r = 0 := by
    by_contra hr
    simp [owned, Owned.after, Function.update_of_ne hr] at hown
  exact hother kind (hr ▸ hown)

end Runs

end Ak24.RootForms
