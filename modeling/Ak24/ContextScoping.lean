import Ak24.ContextModel
import Ak24.MapRefinement

namespace Ak24.ContextScoping

open Objects ContextModel Transition

variable {K V : Type} [DecidableEq K]

structure Scope (K V : Type) where
  parent : Option Nat
  bindings : K → Option V
  hoisted : Finset K

abbrev Scopes (K V : Type) := Nat → Option (Scope K V)

inductive Innermost (S : Scopes K V) (key : K) : Nat → Nat → V → Prop
  | here {i : Nat} {s : Scope K V} {v : V} (hi : S i = some s) (hv : s.bindings key = some v) : Innermost S key i i v
  | outer {i p j : Nat} {s : Scope K V} {v : V} (hi : S i = some s) (hfree : s.bindings key = none)
    (hp : s.parent = some p) (h : Innermost S key p j v) : Innermost S key i j v

inductive Call (K V : Type)
  | new
  | push (ctx : Nat)
  | pop (ctx : Nat)
  | set (ctx : Nat) (key : K) (value : V)
  | hoist (ctx : Nat) (key : K)
  | get (ctx : Nat) (key : K)
  | has (ctx : Nat) (key : K)
  | containing (ctx : Nat) (key : K)

inductive Ret (V : Type)
  | context (ctx : Option Nat)
  | status (code : Int)
  | value (value : V)

def exec (null : V) (w : World K V) : Call K V → Option (Ret V × World K V)
  | .new => some (.context (akContextNew w).1, (akContextNew w).2)
  | .push i => some (.context (akContextPush w (some i)).1, (akContextPush w (some i)).2)
  | .pop i => (akContextPop w (some i)).map fun r => (.context r.1, r.2)
  | .set i key value => (akContextSet w (some i) (some key) value).map fun r => (.status r.1, r.2)
  | .hoist i key => (akContextHoist w (some i) (some key)).map fun r => (.status r.1, r.2)
  | .get i key => (akContextGet null w (some i) (some key)).map fun v => (.value v, w)
  | .has i key => (akContextHas w (some i) (some key)).map fun code => (.status code, w)
  | .containing i key => (akContextGetContainingContext w (some i) (some key)).map fun ctx => (.context ctx, w)

/-- The contexts a call names are live, and a popped one has no live children. -/
def Admissible (w : World K V) : Call K V → Prop
  | .new => True
  | .pop i => w.cells i ≠ none ∧ ∀ j c, w.cells j = some c → c.parent ≠ some i
  | .push i | .set i _ _ | .hoist i _ | .get i _ | .has i _ | .containing i _ => w.cells i ≠ none

def Step (null : V) (w : World K V) (events : List (Call K V × Ret V)) (w' : World K V) : Prop :=
  ∃ call ret, events = [(call, ret)] ∧ Admissible w call ∧ exec null w call = some (ret, w')

def override (child : Scope K V) (bindings : K → Option V) (key : K) : Option V :=
  if key ∈ child.hoisted then (child.bindings key).or (bindings key) else bindings key

def opened (S : Scopes K V) (parent : Option Nat) : Ret V → Scopes K V
  | .context (some i) => Function.update S i (some ⟨parent, fun _ => none, ∅⟩)
  | _ => S

/-- What a call means for the scopes. Only a scope with a parent hoists, and a
lookup changes nothing. -/
def meaning (S : Scopes K V) (call : Call K V) (ret : Ret V) : Scopes K V :=
  match call with
  | .new => opened S none ret
  | .push p => opened S (some p) ret
  | .pop i =>
    match S i with
    | none => S
    | some child =>
      match child.parent with
      | none => Function.update S i none
      | some p =>
        Function.update (Function.update S p ((S p).map fun s => { s with bindings := override child s.bindings })) i none
  | .set i key value =>
    Function.update S i ((S i).map fun s => { s with bindings := Function.update s.bindings key (some value) })
  | .hoist i key =>
    Function.update S i ((S i).map fun s => if s.parent = none then s else { s with hoisted := insert key s.hoisted })
  | .get _ _ | .has _ _ | .containing _ _ => S

def scopes (trace : List (Call K V × Ret V)) : Scopes K V := trace.foldl (fun S e => meaning S e.1 e.2) fun _ => none

def Answers (null : V) (S : Scopes K V) : Call K V → Ret V → Prop
  | .new, .context r | .push _, .context r => ∃ i, r = some i ∧ S i = none
  | .pop i, .context r => ∃ s, S i = some s ∧ r = s.parent
  | .set _ _ _, .status code => code = 0
  | .hoist i _, .status code => ∃ s, S i = some s ∧ code = if s.parent = none then -1 else 0
  | .get i key, .value v =>
    (∃ j, Innermost S key i j v) ∨ v = null ∧ ∀ j u, ¬Innermost S key i j u
  | .has i key, .status code => (code = 1 ∧ ∃ j v, Innermost S key i j v) ∨ code = 0 ∧ ∀ j v, ¬Innermost S key i j v
  | .containing i key, .context r => ∀ j, r = some j ↔ ∃ v, Innermost S key i j v
  | _, _ => False

def scopeOf (c : Context K V) : Scope K V := ⟨c.parent, mapGetGeneric c.data, c.hoistQueue.toFinset⟩

def Rooted (w : World K V) : Prop := ∀ i c p, w.cells i = some c → c.parent = some p → p < i ∧ w.cells p ≠ none

section Strings

open MapModel

def mapHashStr (key : List UInt8) : Unsigned :=
  key.foldl (fun hash c => ((hash <<< 5) + hash) ^^^ c.toBitVec.signExtend 32) 5381

def mapCmpStr (a b : List UInt8) : Int := if a = b then 0 else if a < b then -1 else 1

theorem mapCmpStr_eq_zero {a b : List UInt8} : mapCmpStr a b = 0 ↔ a = b := by
  rw [mapCmpStr]
  split_ifs <;> simp_all

def stringOps : KeyOps (List UInt8) where
  hash := mapHashStr
  cmp := mapCmpStr
  refl a := mapCmpStr_eq_zero.mpr rfl
  symm a b h := mapCmpStr_eq_zero.mpr (mapCmpStr_eq_zero.mp h).symm
  trans a b c h h' := mapCmpStr_eq_zero.mpr ((mapCmpStr_eq_zero.mp h).trans (mapCmpStr_eq_zero.mp h'))
  hash_eq a b h := by rw [mapCmpStr_eq_zero.mp h]

end Strings

section Trees

omit [DecidableEq K]

variable {w : World K V} {i : Nat} {c : Context K V} {key : K}

theorem rooted_alloc (h : Rooted w) (c : Context K V) (hc : ∀ p, c.parent = some p → w.cells p ≠ none) :
    Rooted (w.alloc c) := by
  have hkeep : ∀ p, w.cells p ≠ none → (w.alloc c).cells p ≠ none := by
    intro p hp
    obtain ⟨b, hb⟩ := Option.ne_none_iff_exists'.mp hp
    simp [Heap.alloc_old hb]
  intro j d p hj hp
  rcases Heap.alloc_eq_some hj with ⟨rfl, rfl⟩ | hold
  · obtain ⟨b, hb⟩ := Option.ne_none_iff_exists'.mp (hc p hp)
    exact ⟨w.lt_next hb, hkeep p (hc p hp)⟩
  · exact ⟨(h j d p hold hp).1, hkeep p (h j d p hold hp).2⟩

theorem rooted_store (h : Rooted w) {d : Context K V} (hi : w.cells i = some c) (hparent : d.parent = c.parent) :
    Rooted (w.store i d) := by
  have hkeep : ∀ p, w.cells p ≠ none → (w.store i d).cells p ≠ none := by
    intro p hp
    by_cases hpi : p = i
    · subst p
      simp [Heap.store_self hi]
    · rwa [Heap.store_of_ne hpi]
  intro j e p hj hp
  by_cases hji : j = i
  · subst j
    rw [Heap.store_self hi] at hj
    cases hj
    rw [hparent] at hp
    exact ⟨(h i c p hi hp).1, hkeep p (h i c p hi hp).2⟩
  · rw [Heap.store_of_ne hji] at hj
    exact ⟨(h j e p hj hp).1, hkeep p (h j e p hj hp).2⟩

theorem rooted_free (h : Rooted w) (hchildless : ∀ j c, w.cells j = some c → c.parent ≠ some i) : Rooted (w.free i) := by
  intro j d p hj hp
  obtain ⟨-, hold⟩ := Heap.free_eq_some hj
  have hpi : p ≠ i := by
    rintro rfl
    exact hchildless j d hold hp
  rw [Heap.free_of_ne hpi]
  exact h j d p hold hp

theorem innermost_free {S : Scopes K V} {s : Scope K V} {j : Nat} {v : V} (hi : S i = some s)
    (hfree : s.bindings key = none) :
    Innermost S key i j v ↔ ∃ p, s.parent = some p ∧ Innermost S key p j v := by
  constructor
  · intro h
    cases h with
    | here hi' hv =>
        rw [hi] at hi'
        cases hi'
        rw [hfree] at hv
        cases hv
    | outer hi' hfree' hp h =>
        rw [hi] at hi'
        cases hi'
        exact ⟨_, hp, h⟩
  · rintro ⟨p, hp, h⟩
    exact .outer hi hfree hp h

theorem innermost_unique {S : Scopes K V} {j j' : Nat} {v v' : V} (h : Innermost S key i j v)
    (h' : Innermost S key i j' v') : j = j' := by
  induction h with
  | here hi hv =>
      cases h' with
      | here => rfl
      | outer hi' hfree =>
          rw [hi] at hi'
          cases hi'
          rw [hv] at hfree
          cases hfree
  | outer hi hfree hp h ih =>
      obtain ⟨p, hp', h'⟩ := (innermost_free hi hfree).mp h'
      rw [hp] at hp'
      cases hp'
      exact ih h'

end Trees

section Calls

variable {w w' : World K V} {i : Nat} {c : Context K V} {key : K}

theorem view_some (hi : w.cells i = some c) : w.view scopeOf i = some (scopeOf c) := by
  rw [Heap.view, hi, Option.map_some]

/-- The walk ends, and ends at the innermost binding. -/
theorem search_spec (h : Rooted w) (key : K) (hi : w.cells i ≠ none) {fuel : Nat} (hfuel : i + 1 < fuel) :
    (∃ j v, search w key fuel (some i) = some (some (j, v)) ∧ Innermost (w.view scopeOf) key i j v) ∨
      search w key fuel (some i) = some none ∧ ∀ j v, ¬Innermost (w.view scopeOf) key i j v := by
  induction fuel generalizing i with
  | zero => omega
  | succ fuel ih =>
      obtain ⟨c, hc⟩ := Option.ne_none_iff_exists'.mp hi
      rw [search, hc, Option.bind_eq_bind, Option.bind_some]
      cases hv : mapGetGeneric c.data key with
      | some v => exact .inl ⟨i, v, rfl, .here (view_some hc) hv⟩
      | none =>
          have hup : ∀ j v, Innermost (w.view scopeOf) key i j v ↔
              ∃ p, c.parent = some p ∧ Innermost (w.view scopeOf) key p j v :=
            fun j v => innermost_free (view_some hc) hv
          cases hp : c.parent with
          | none =>
              obtain ⟨fuel, rfl⟩ := Nat.exists_eq_succ_of_ne_zero (show fuel ≠ 0 by omega)
              refine .inr ⟨rfl, fun j v hin => ?_⟩
              obtain ⟨p, hp', -⟩ := (hup j v).mp hin
              cases hp.symm.trans hp'
          | some p =>
              obtain ⟨hlt, hlive⟩ := h i c p hc hp
              rcases ih hlive (by omega) with ⟨j, v, hsearch, hin⟩ | ⟨hsearch, hno⟩
              · exact .inl ⟨j, v, hsearch, (hup j v).mpr ⟨p, hp, hin⟩⟩
              · refine .inr ⟨hsearch, fun j v hin => ?_⟩
                obtain ⟨p', hp', hin⟩ := (hup j v).mp hin
                cases hp.symm.trans hp'
                exact hno j v hin

theorem lookupFrom_spec {β : Type} (found : Nat → V → β) (other : β) (h : Rooted w) (hi : w.cells i ≠ none) (key : K) :
    ∃ r, lookupFrom found other w (some i) (some key) = some r ∧
      ((∃ j v, Innermost (w.view scopeOf) key i j v ∧ r = found j v) ∨
        (∀ j v, ¬Innermost (w.view scopeOf) key i j v) ∧ r = other) := by
  obtain ⟨c, hc⟩ := Option.ne_none_iff_exists'.mp hi
  have hlt := w.lt_next hc
  rw [lookupFrom]
  have hspec := search_spec h key hi (show i + 1 < w.next + 1 by omega)
  rcases hspec with ⟨j, v, hsearch, hin⟩ | ⟨hsearch, hno⟩
  · rw [hsearch]
    exact ⟨_, rfl, .inl ⟨j, v, hin, rfl⟩⟩
  · rw [hsearch]
    exact ⟨_, rfl, .inr ⟨hno, rfl⟩⟩

theorem override_hoistAll (data parentData : List (K × V)) (queue : List K) :
    mapGetGeneric (hoistAll data queue parentData) =
      fun key => if key ∈ queue then (mapGetGeneric data key).or (mapGetGeneric parentData key)
        else mapGetGeneric parentData key := by
  induction queue generalizing parentData with
  | nil => simp [hoistAll]
  | cons k queue ih =>
      have hcons : hoistAll data (k :: queue) parentData =
          hoistAll data queue (hoistAll data [k] parentData) := rfl
      funext key
      rw [hcons, ih]
      cases hk : mapGetGeneric data k with
      | none =>
          have hsame : hoistAll data [k] parentData = parentData := by simp [hoistAll, hk]
          rw [hsame]
          by_cases hkey : key = k
          · subst key
            simp [hk]
          · simp [hkey]
      | some v =>
          have hset : hoistAll data [k] parentData = mapSetGeneric k v parentData := by simp [hoistAll, hk]
          rw [hset, mapGet_set]
          by_cases hkey : key = k
          · subst key
            simp [hk]
          · simp [hkey]

theorem scopeOf_set (c : Context K V) (key : K) (value : V) :
    scopeOf { c with data := mapSetGeneric key value c.data } =
      { scopeOf c with bindings := Function.update (scopeOf c).bindings key (some value) } := by
  simp only [scopeOf, mapGet_set]

theorem scopeOf_hoist (c : Context K V) (key : K) :
    scopeOf { c with hoistQueue := if key ∈ c.hoistQueue then c.hoistQueue else c.hoistQueue ++ [key] } =
      { scopeOf c with hoisted := insert key (scopeOf c).hoisted } := by
  simp only [scopeOf, Scope.mk.injEq, true_and]
  ext k
  split_ifs with hkey
  · rw [Finset.insert_eq_of_mem (List.mem_toFinset.mpr hkey)]
  · simp

theorem scopeOf_hoistAll (c parent : Context K V) :
    scopeOf { parent with data := hoistAll c.data c.hoistQueue parent.data } =
      { scopeOf parent with bindings := override (scopeOf c) (scopeOf parent).bindings } := by
  simp only [scopeOf, override_hoistAll, Scope.mk.injEq, true_and, and_true]
  funext key
  simp [override]

structure CallOk (null : V) (w : World K V) (call : Call K V) (ret : Ret V) (w' : World K V) : Prop where
  returns : exec null w call = some (ret, w')
  rooted : Rooted w'
  answers : Answers null (w.view scopeOf) call ret
  means : w'.view scopeOf = meaning (w.view scopeOf) call ret

theorem view_next (w : World K V) : w.view scopeOf w.next = none := by
  rw [Heap.view, w.fresh w.next le_rfl, Option.map_none]

theorem akContextPop_ok (null : V) (h : Rooted w) (hcall : Admissible w (.pop i)) :
    ∃ ret w', CallOk null w (.pop i) ret w' := by
  obtain ⟨hlive, hchildless⟩ := hcall
  obtain ⟨c, hc⟩ := Option.ne_none_iff_exists'.mp hlive
  cases hp : c.parent with
  | none =>
      refine ⟨.context none, w.free i, ?_, rooted_free h hchildless, ?_, ?_⟩
      · simp [exec, akContextPop, hc, hp]
      · exact ⟨_, view_some hc, hp.symm⟩
      · rw [Heap.view_free, meaning, view_some hc]
        simp [scopeOf, hp]
  | some p =>
      obtain ⟨parent, hparent⟩ := Option.ne_none_iff_exists'.mp (h i c p hc hp).2
      refine ⟨.context (some p),
        (w.store p { parent with data := hoistAll c.data c.hoistQueue parent.data }).free i, ?_, ?_, ?_, ?_⟩
      · simp [exec, akContextPop, hc, hp, hparent]
      · refine rooted_free (rooted_store h hparent ?_) ?_
        · rfl
        · intro j d hd
          by_cases hj : j = p
          · subst j
            rw [Heap.store_self hparent] at hd
            cases hd
            exact hchildless p parent hparent
          · rw [Heap.store_of_ne hj] at hd
            exact hchildless j d hd
      · exact ⟨_, view_some hc, hp.symm⟩
      · rw [Heap.view_free, Heap.view_store hparent, scopeOf_hoistAll, meaning, view_some hc]
        simp [scopeOf, hp, Heap.view, hparent]

theorem akContextSet_ok (null : V) (h : Rooted w) (hlive : w.cells i ≠ none) (key : K) (value : V) :
    ∃ ret w', CallOk null w (.set i key value) ret w' := by
  obtain ⟨c, hc⟩ := Option.ne_none_iff_exists'.mp hlive
  refine ⟨.status 0, w.store i { c with data := mapSetGeneric key value c.data }, ?_, rooted_store h hc rfl, rfl, ?_⟩
  · simp [exec, akContextSet, hc]
  · rw [Heap.view_store hc, scopeOf_set, meaning, view_some hc, Option.map_some]

theorem akContextHoist_ok (null : V) (h : Rooted w) (hlive : w.cells i ≠ none) (key : K) :
    ∃ ret w', CallOk null w (.hoist i key) ret w' := by
  obtain ⟨c, hc⟩ := Option.ne_none_iff_exists'.mp hlive
  cases hp : c.parent with
  | none =>
      refine ⟨.status (-1), w, ?_, h, ⟨_, view_some hc, by simp [scopeOf, hp]⟩, ?_⟩
      · simp [exec, akContextHoist, hc, hp]
      · rw [meaning, view_some hc, Option.map_some, if_pos (show (scopeOf c).parent = none from hp)]
        exact (Function.update_eq_self_iff.mpr (view_some hc).symm).symm
  | some p =>
      have hmeans := scopeOf_hoist c key
      have hnested : ¬(scopeOf c).parent = none := by simp [scopeOf, hp]
      by_cases hkey : key ∈ c.hoistQueue
      · refine ⟨.status 0, w, ?_, h, ⟨_, view_some hc, by simp [scopeOf, hp]⟩, ?_⟩
        · simp [exec, akContextHoist, hc, hp, hkey]
        · rw [if_pos hkey] at hmeans
          rw [meaning, view_some hc, Option.map_some, if_neg hnested, ← hmeans]
          exact (Function.update_eq_self_iff.mpr (view_some hc).symm).symm
      · refine ⟨.status 0, w.store i { c with hoistQueue := c.hoistQueue ++ [key] }, ?_, rooted_store h hc rfl,
          ⟨_, view_some hc, by simp [scopeOf, hp]⟩, ?_⟩
        · simp [exec, akContextHoist, hc, hp, hkey]
        · rw [if_neg hkey] at hmeans
          rw [Heap.view_store hc, hmeans, meaning, view_some hc, Option.map_some, if_neg hnested]

theorem exec_ok (null : V) (h : Rooted w) (call : Call K V) (hcall : Admissible w call) :
    ∃ ret w', CallOk null w call ret w' := by
  cases call with
  | new =>
      exact ⟨_, _, rfl, rooted_alloc h _ nofun, ⟨_, rfl, view_next w⟩, Heap.view_alloc⟩
  | push p =>
      refine ⟨_, _, rfl, rooted_alloc h _ ?_, ⟨_, rfl, view_next w⟩, Heap.view_alloc⟩
      rintro _ ⟨⟩
      exact hcall
  | pop i => exact akContextPop_ok null h hcall
  | set i key value => exact akContextSet_ok null h hcall key value
  | hoist i key => exact akContextHoist_ok null h hcall key
  | get i key =>
      obtain ⟨r, hr, hspec⟩ := lookupFrom_spec (fun _ value => value) null h hcall key
      refine ⟨.value r, w, by simp [exec, akContextGet, hr], h, ?_, rfl⟩
      rcases hspec with ⟨j, v, hin, rfl⟩ | ⟨hno, rfl⟩
      · exact .inl ⟨j, hin⟩
      · exact .inr ⟨rfl, hno⟩
  | has i key =>
      obtain ⟨r, hr, hspec⟩ := lookupFrom_spec (fun _ _ => (1 : Int)) 0 h hcall key
      refine ⟨.status r, w, by simp [exec, akContextHas, hr], h, ?_, rfl⟩
      rcases hspec with ⟨j, v, hin, rfl⟩ | ⟨hno, rfl⟩
      · exact .inl ⟨rfl, j, v, hin⟩
      · exact .inr ⟨rfl, hno⟩
  | containing i key =>
      obtain ⟨r, hr, hspec⟩ := lookupFrom_spec (fun j _ => some j) none h hcall key
      refine ⟨.context r, w, by simp [exec, akContextGetContainingContext, hr], h, ?_, rfl⟩
      intro k
      rcases hspec with ⟨j, v, hin, rfl⟩ | ⟨hno, rfl⟩
      · rw [Option.some.injEq]
        constructor
        · rintro rfl
          exact ⟨v, hin⟩
        · rintro ⟨u, hin'⟩
          exact innermost_unique hin hin'
      · simp [hno]

end Calls

section Tables

open MapModel MapRefinement

abbrev Tables (K V : Type) := Nat → MapBase K V

def hoistTable (ops : KeyOps K) (child : MapBase K V) : List K → MapBase K V → Option (MapBase K V)
  | [], parent => some parent
  | key :: queue, parent => do
    match ← mapGet ops child key with
    | none => hoistTable ops child queue parent
    | some value =>
      let (_, parent) ← mapSet ops parent key value ⟨true, true⟩
      hoistTable ops child queue parent

def serve (ops : KeyOps K) (w : World K V) (tables : Tables K V) : Call K V → Option (Tables K V)
  | .new | .push _ => some (Function.update tables w.next (mapInit K V))
  | .set i key value => do
    let (_, table) ← mapSet ops (tables i) key value ⟨true, true⟩
    some (Function.update tables i table)
  | .pop i => do
    let c ← w.cells i
    match c.parent with
    | none => some tables
    | some p =>
      let table ← hoistTable ops (tables i) c.hoistQueue (tables p)
      some (Function.update tables p table)
  | .hoist _ _ | .get _ _ | .has _ _ | .containing _ _ => some tables

def searchTables (ops : KeyOps K) (w : World K V) (tables : Tables K V) (key : K) :
    Nat → Option Nat → Option (Option (Nat × V))
  | 0, _ => none
  | _ + 1, none => some none
  | fuel + 1, some i => do
    let c ← w.cells i
    match ← mapGet ops (tables i) key with
    | some value => some (some (i, value))
    | none => searchTables ops w tables key fuel c.parent

/-- No context has `2 ^ 30` bindings. -/
def Small (w : World K V) : Prop := ∀ i c, w.cells i = some c → c.data.length < 2 ^ 30

def BoundedStep (null : V) (w : World K V) (events : List (Call K V × Ret V)) (w' : World K V) : Prop :=
  Step null w events w' ∧ Small w'

def TableStep (ops : KeyOps K) (null : V) (s : World K V × Tables K V) (events : List (Call K V × Ret V))
    (s' : World K V × Tables K V) : Prop :=
  ∃ call ret, events = [(call, ret)] ∧ Admissible s.1 call ∧ exec null s.1 call = some (ret, s'.1) ∧
    serve ops s.1 s.2 call = some s'.2

structure TableOf (ops : KeyOps K) (data : List (K × V)) (m : MapBase K V) : Prop where
  valid : Valid ops m
  holds : ∀ key value, mapGetGeneric data key = some value ↔ Holds ops m key value

def Tabled (ops : KeyOps K) (w : World K V) (tables : Tables K V) : Prop :=
  ∀ i c, w.cells i = some c → TableOf ops c.data (tables i)

variable {ops : KeyOps K} {data : List (K × V)} {m : MapBase K V} {w w' : World K V} {tables : Tables K V}

theorem tableOf_init : TableOf ops [] (mapInit K V) :=
  ⟨represents_init.valid, by simp [mapGetGeneric, Holds, contents, mapInit]⟩

theorem TableOf.get (h : TableOf ops data m) (key : K) : mapGet ops m key = some (mapGetGeneric data key) := by
  obtain ⟨r, hget, hr⟩ := mapGet_spec h.valid key
  rw [hget, Option.some.injEq]
  ext value
  rw [hr, h.holds]

theorem TableOf.nnodes_le (h : TableOf ops data m) : m.nnodes.toNat ≤ data.length := by
  have hnodup : ((contents m).map MapNode.key).Nodup := by
    rw [List.Nodup, List.pairwise_map]
    apply h.valid.distinct.imp
    intro a b hne heq
    exact hne (heq ▸ ops.refl a.key)
  have hsub : (contents m).map MapNode.key ⊆ data.map Prod.fst := by
    intro key hkey
    obtain ⟨node, hnode, rfl⟩ := List.mem_map.mp hkey
    have hbound := (h.holds node.key node.value).mpr ⟨node, hnode, ops.refl _, rfl⟩
    obtain ⟨before, after, hsplit, -⟩ := List.lookup_eq_some_iff.mp hbound
    exact List.mem_map.mpr ⟨(node.key, node.value), by simp [hsplit], rfl⟩
  have hle := (hnodup.subperm hsub).length_le
  rwa [List.length_map, List.length_map, ← h.valid.count] at hle

theorem TableOf.set (hops : ∀ a b, ops.cmp a b = 0 ↔ a = b) (h : TableOf ops data m) (hsmall : data.length < 2 ^ 30)
    (key : K) (value : V) :
    ∃ m', mapSet ops m key value ⟨true, true⟩ = some (0, m') ∧ TableOf ops (mapSetGeneric key value data) m' := by
  obtain ⟨code, m', hset, hvalid, hstored, hcode⟩ :=
    mapSet_spec h.valid key value ⟨true, true⟩ (h.nnodes_le.trans_lt hsmall)
  obtain rfl := hcode rfl rfl
  refine ⟨m', hset, hvalid, fun k v => ?_⟩
  obtain ⟨-, hstored⟩ | ⟨hfailed, -⟩ := hstored
  · have hcmp : ops.cmp key k = 0 ↔ key = k := hops key k
    rw [hstored, mapGet_set, Function.update_apply]
    by_cases hk : k = key
    · subst k
      simp [hcmp, eq_comm]
    · rw [if_neg hk, if_neg fun hsame => hk (hcmp.mp hsame).symm, h.holds]
  · cases hfailed

theorem length_mapSetGeneric (key : K) (value : V) (data : List (K × V)) :
    data.length ≤ (mapSetGeneric key value data).length := by
  induction data with
  | nil => exact Nat.zero_le _
  | cons entry data ih =>
      rw [mapSetGeneric]
      split_ifs
      · rfl
      · exact Nat.succ_le_succ ih

theorem length_hoistAll (data : List (K × V)) (queue : List K) (parentData : List (K × V)) :
    parentData.length ≤ (hoistAll data queue parentData).length := by
  induction queue generalizing parentData with
  | nil => rfl
  | cons key queue ih =>
      rw [hoistAll, List.foldl_cons]
      refine le_trans ?_ (ih _)
      split
      · exact length_mapSetGeneric _ _ _
      · rfl

theorem hoistTable_spec (hops : ∀ a b, ops.cmp a b = 0 ↔ a = b) (hchild : TableOf ops data m) (queue : List K)
    {parentData : List (K × V)} {parent : MapBase K V} (hparent : TableOf ops parentData parent)
    (hsmall : (hoistAll data queue parentData).length < 2 ^ 30) :
    ∃ parent', hoistTable ops m queue parent = some parent' ∧
      TableOf ops (hoistAll data queue parentData) parent' := by
  induction queue generalizing parentData parent with
  | nil => exact ⟨parent, rfl, hparent⟩
  | cons key queue ih =>
      rw [hoistTable, hchild.get]
      rw [hoistAll, List.foldl_cons] at hsmall ⊢
      cases hv : mapGetGeneric data key with
      | none =>
          rw [hv] at hsmall
          exact ih hparent hsmall
      | some value =>
          rw [hv] at hsmall
          have hlt := (length_mapSetGeneric key value parentData).trans_lt
            ((length_hoistAll data queue _).trans_lt hsmall)
          obtain ⟨parent₁, hset, hparent₁⟩ := hparent.set hops hlt key value
          obtain ⟨parent', hrest, hparent'⟩ := ih hparent₁ hsmall
          exact ⟨parent', by simpa [hset] using hrest, hparent'⟩

theorem searchTables_eq (h : Tabled ops w tables) (key : K) (fuel : Nat) (ctx : Option Nat) :
    searchTables ops w tables key fuel ctx = search w key fuel ctx := by
  induction fuel generalizing ctx with
  | zero => rfl
  | succ fuel ih =>
      cases ctx with
      | none => rfl
      | some i =>
          rw [searchTables, search]
          cases hc : w.cells i with
          | none => rfl
          | some c =>
              have hget := (h i c hc).get key
              cases hv : mapGetGeneric c.data key with
              | none => simp [hget, hv, ih]
              | some value => simp [hget, hv]

theorem Tabled.alloc (h : Tabled ops w tables) (parent : Option Nat) :
    Tabled ops (w.alloc ⟨parent, [], []⟩) (Function.update tables w.next (mapInit K V)) := by
  intro i c hi
  rcases Heap.alloc_eq_some hi with ⟨rfl, rfl⟩ | hold
  · rw [Function.update_self]
    exact tableOf_init
  · rw [Function.update_of_ne (w.lt_next hold).ne]
    exact h i c hold

theorem Tabled.store (h : Tabled ops w tables) {i : Nat} {c d : Context K V} (hi : w.cells i = some c)
    (hd : TableOf ops d.data m) : Tabled ops (w.store i d) (Function.update tables i m) := by
  intro j e hj
  by_cases hji : j = i
  · subst j
    rw [Heap.store_self hi] at hj
    cases hj
    rwa [Function.update_self]
  · rw [Heap.store_of_ne hji] at hj
    rw [Function.update_of_ne hji]
    exact h j e hj

theorem Tabled.free (h : Tabled ops w tables) (i : Nat) : Tabled ops (w.free i) tables :=
  fun j c hj => h j c (Heap.free_eq_some hj).2

theorem Tabled.pop (hops : ∀ a b, ops.cmp a b = 0 ↔ a = b) (h : Tabled ops w tables) (hrooted : Rooted w) {i : Nat}
    {r : Option Nat} (hpop : akContextPop w (some i) = some (r, w')) (hsmall : Small w') :
    ∃ tables', serve ops w tables (.pop i) = some tables' ∧ Tabled ops w' tables' := by
  rw [akContextPop] at hpop
  rw [serve]
  cases hc : w.cells i with
  | none => simp [hc] at hpop
  | some c =>
      cases hp : c.parent with
      | none =>
          simp only [hc, hp, Option.bind_eq_bind, Option.bind_some, Option.some.injEq, Prod.mk.injEq] at hpop
          obtain ⟨-, rfl⟩ := hpop
          exact ⟨tables, by simp [hp], h.free i⟩
      | some p =>
          cases hd : w.cells p with
          | none => simp [hc, hp, hd] at hpop
          | some parent =>
              simp only [hc, hp, hd, Option.bind_eq_bind, Option.bind_some, Option.some.injEq, Prod.mk.injEq] at hpop
              obtain ⟨-, rfl⟩ := hpop
              have hne : p ≠ i := (hrooted i c p hc hp).1.ne
              have hlt := hsmall p _ ((Heap.free_of_ne hne).trans (Heap.store_self hd))
              obtain ⟨table, htable, hof⟩ := hoistTable_spec hops (h i c hc) c.hoistQueue (h p parent hd) hlt
              exact ⟨_, by simp [hp, htable], (h.store hd hof).free i⟩

theorem Tabled.set (hops : ∀ a b, ops.cmp a b = 0 ↔ a = b) (h : Tabled ops w tables) {i : Nat} {key : K} {value : V}
    {code : Int} (hset : akContextSet w (some i) (some key) value = some (code, w')) (hsmall : Small w') :
    ∃ tables', serve ops w tables (.set i key value) = some tables' ∧ Tabled ops w' tables' := by
  rw [akContextSet] at hset
  rw [serve]
  cases hc : w.cells i with
  | none => simp [hc] at hset
  | some c =>
      simp only [hc, Option.bind_eq_bind, Option.bind_some, Option.some.injEq, Prod.mk.injEq] at hset
      obtain ⟨-, rfl⟩ := hset
      have hlt := hsmall i _ (Heap.store_self hc)
      have hroom := (length_mapSetGeneric key value c.data).trans_lt hlt
      obtain ⟨table, htable, hof⟩ := (h i c hc).set hops hroom key value
      exact ⟨_, by simp [htable], h.store hc hof⟩

/-- A hoist touches no bindings. -/
theorem Tabled.hoist (h : Tabled ops w tables) {i : Nat} {key : K} {code : Int}
    (hhoist : akContextHoist w (some i) (some key) = some (code, w')) : Tabled ops w' tables := by
  rw [akContextHoist] at hhoist
  cases hc : w.cells i with
  | none => simp [hc] at hhoist
  | some c =>
      simp only [hc, Option.bind_eq_bind, Option.bind_some] at hhoist
      split at hhoist
      · cases hhoist
        exact h
      · split_ifs at hhoist
        · cases hhoist
          exact h
        · cases hhoist
          have hstore := h.store hc (d := { c with hoistQueue := c.hoistQueue ++ [key] }) (h i c hc)
          rwa [Function.update_eq_self] at hstore

/-- The tables take every call that leaves no context with `2 ^ 30` bindings. -/
theorem Tabled.serve (hops : ∀ a b, ops.cmp a b = 0 ↔ a = b) (h : Tabled ops w tables) (hrooted : Rooted w) {null : V}
    {call : Call K V} {ret : Ret V} (hexec : exec null w call = some (ret, w')) (hsmall : Small w') :
    ∃ tables', serve ops w tables call = some tables' ∧ Tabled ops w' tables' := by
  cases call with
  | new =>
      cases hexec
      exact ⟨_, rfl, h.alloc none⟩
  | push p =>
      cases hexec
      exact ⟨_, rfl, h.alloc (some p)⟩
  | pop i =>
      obtain ⟨r, hpop, hr⟩ := Option.map_eq_some_iff.mp hexec
      cases hr
      exact h.pop hops hrooted hpop hsmall
  | set i key value =>
      obtain ⟨r, hset, hr⟩ := Option.map_eq_some_iff.mp hexec
      cases hr
      exact h.set hops hset hsmall
  | hoist i key =>
      obtain ⟨r, hhoist, hr⟩ := Option.map_eq_some_iff.mp hexec
      cases hr
      exact ⟨tables, rfl, h.hoist hhoist⟩
  | get i key | has i key | containing i key =>
      obtain ⟨r, -, hr⟩ := Option.map_eq_some_iff.mp hexec
      cases hr
      exact ⟨tables, rfl, h⟩

end Tables

section Runs

variable {null : V} {trace : List (Call K V × Ret V)} {w : World K V}

theorem run_scopes (hrun : Run (Step null) (Heap.empty (Context K V)) trace w) :
    Rooted w ∧ w.view scopeOf = scopes trace := by
  apply hrun.invariant (P := fun trace w => Rooted w ∧ w.view scopeOf = scopes trace)
  · exact ⟨nofun, rfl⟩
  · rintro trace w _ w' ⟨hrooted, hview⟩ ⟨call, ret, rfl, hcall, hexec⟩
    obtain ⟨ret', w₁, hok⟩ := exec_ok null hrooted call hcall
    rw [hok.returns] at hexec
    cases hexec
    refine ⟨hok.rooted, ?_⟩
    rw [hok.means, hview, scopes, scopes, List.foldl_append]
    rfl

/-- A run in which no context gets `2 ^ 30` bindings is one of the tables too. -/
theorem run_tables {ops : MapModel.KeyOps K} (hops : ∀ a b, ops.cmp a b = 0 ↔ a = b)
    (hrun : Run (BoundedStep null) (Heap.empty (Context K V)) trace w) (tables₀ : Tables K V) :
    ∃ tables, Run (TableStep ops null) (Heap.empty (Context K V), tables₀) trace (w, tables) ∧ Tabled ops w tables := by
  obtain ⟨⟨_, tables⟩, htables, rfl, -, htabled⟩ : ∃ s, Run (TableStep ops null) (Heap.empty _, tables₀)
      (trace.map id) s ∧ s.1 = w ∧ Rooted w ∧ Tabled ops w s.2 := by
    refine hrun.simulate (R := fun w (s : World K V × Tables K V) => s.1 = w ∧ Rooted w ∧ Tabled ops w s.2)
      ⟨rfl, nofun, nofun⟩ ?_
    rintro _ w ⟨_, tables⟩ events w' - ⟨rfl, hrooted, htabled⟩ ⟨⟨call, ret, rfl, hcall, hexec⟩, hsmall⟩
    obtain ⟨tables', hserve, htabled'⟩ := htabled.serve hops hrooted hexec hsmall
    obtain ⟨ret', w₁, hok⟩ := exec_ok null hrooted call hcall
    have hsame := hok.returns
    rw [hexec] at hsame
    cases hsame
    exact ⟨(w', tables'), ⟨call, ret, rfl, hcall, hexec, hserve⟩, rfl, hok.rooted, htabled'⟩
  rw [List.map_id] at htables
  exact ⟨tables, htables, htabled⟩

/-- After any calls the contexts are the scopes the calls mean, and every further
call returns and does what it means in them. Where no context gets `2 ^ 30` bindings,
their hash tables hold what the scopes bind, and the lookups find it there. -/
theorem lexical_scoping (hrun : Run (Step null) (Heap.empty (Context K V)) trace w) :
    w.view scopeOf = scopes trace ∧
      (∀ call, Admissible w call → ∃ ret w', exec null w call = some (ret, w') ∧ Answers null (scopes trace) call ret ∧
        w'.view scopeOf = meaning (scopes trace) call ret) ∧
      ∀ (ops : MapModel.KeyOps K) (tables₀ : Tables K V), (∀ a b, ops.cmp a b = 0 ↔ a = b) →
        Run (BoundedStep null) (Heap.empty (Context K V)) trace w →
        ∃ tables, Run (TableStep ops null) (Heap.empty (Context K V), tables₀) trace (w, tables) ∧
          (∀ i s key, scopes trace i = some s → MapModel.mapGet ops (tables i) key = some (s.bindings key)) ∧
          ∀ key fuel ctx, searchTables ops w tables key fuel ctx = search w key fuel ctx := by
  obtain ⟨hrooted, hview⟩ := run_scopes hrun
  refine ⟨hview, fun call hcall => ?_, fun ops tables₀ hops hbounded => ?_⟩
  · obtain ⟨ret, w', hok⟩ := exec_ok null hrooted call hcall
    refine ⟨ret, w', hok.returns, ?_, ?_⟩
    · rw [← hview]
      exact hok.answers
    · rw [← hview]
      exact hok.means
  · obtain ⟨tables, htables, htabled⟩ := run_tables hops hbounded tables₀
    refine ⟨tables, htables, fun i s key hi => ?_, searchTables_eq htabled⟩
    rw [← hview] at hi
    obtain ⟨c, hc, rfl⟩ := Option.map_eq_some_iff.mp hi
    exact (htabled i c hc).get key

theorem newest_childless {i : Nat} (hrun : Run (Step null) (Heap.empty (Context K V)) trace w) (hi : w.next = i + 1)
    (j : Nat) (c : Context K V) (hj : w.cells j = some c) : c.parent ≠ some i := by
  intro hp
  have holder := ((run_scopes hrun).1 j c i hj hp).1
  have hlt := w.lt_next hj
  omega

end Runs

/-- A key that the parent binds too is hoisted before it is set in the child,
another one is hoisted and never set, and the child is popped. -/
theorem hoisted_before_set : ∃ trace w, Run (Step 0) (Heap.empty (Context Nat Nat)) trace w ∧
    w.view scopeOf = scopes trace ∧ (scopes trace 0).map (fun s => (s.bindings 7, s.bindings 8)) =
      some (some 42, some 30) := by
  have r₁ : Run (Step 0) (Heap.empty (Context Nat Nat)) _ _ :=
    .next .start ⟨.new, .context (some 0), rfl, trivial, rfl⟩
  have r₂ := r₁.next ⟨.set 0 7 20, .status 0, rfl, nofun, rfl⟩
  have r₃ := r₂.next ⟨.set 0 8 30, .status 0, rfl, nofun, rfl⟩
  have r₄ := r₃.next ⟨.push 0, .context (some 1), rfl, nofun, rfl⟩
  have r₅ := r₄.next ⟨.hoist 1 7, .status 0, rfl, nofun, rfl⟩
  have r₆ := r₅.next ⟨.set 1 7 42, .status 0, rfl, nofun, rfl⟩
  have r₇ := r₆.next ⟨.hoist 1 8, .status 0, rfl, nofun, rfl⟩
  have r₈ := r₇.next ⟨.pop 1, .context (some 0), rfl, ⟨nofun, newest_childless r₇ rfl⟩, rfl⟩
  exact ⟨_, _, r₈, (lexical_scoping r₈).1, rfl⟩

end Ak24.ContextScoping
