import Ak24.AtomModel
import Ak24.Blocks
import Ak24.Transition

namespace Ak24.AtomCluster

open Blocks Transition

variable {α : Type}

/-- What a request for a larger array is answered. One for no bytes may free the
array that there is. -/
inductive Reply
  | granted
  | refused
  | freed
  deriving DecidableEq, Repr

/-- An `ak_atom_cluster_t` with the array that its `atoms` points to, which is not
there once it has been freed. -/
structure Cluster (α : Type) where
  atoms : Option (List (Option α))
  count : Nat
  capacity : Nat
  deriving DecidableEq, Repr

def atomBytes (capacity : Nat) : Nat := 8 * capacity % 2 ^ 64

def akAtomClusterNew (initialCapacity : Nat) (clusterGranted atomsGranted : Bool) : Option (Cluster α) :=
  if !clusterGranted then none
  else if !atomsGranted then none
  else some ⟨some (Blocks.alloc (atomBytes initialCapacity / 8)), 0, initialCapacity⟩

/-- What a call has done; `inside` says that it did not write outside of the array. -/
structure Addition (α : Type) where
  code : Int
  cluster : Cluster α
  inside : Bool
  deriving DecidableEq, Repr

def store (atoms : List (Option α)) (count capacity : Nat) (atom : α) : Addition α :=
  match put atoms count atom with
  | none => ⟨0, ⟨some atoms, (count + 1) % 2 ^ 64, capacity⟩, false⟩
  | some atoms => ⟨0, ⟨some atoms, (count + 1) % 2 ^ 64, capacity⟩, true⟩

/-- `none` is a use of an array that has been freed. -/
def akAtomClusterAdd (cluster : Cluster α) (atom : Option α) (reply : Reply) : Option (Addition α) :=
  match atom, cluster.atoms with
  | none, _ => some ⟨-1, cluster, true⟩
  | some _, none => none
  | some atom, some atoms =>
    if cluster.count ≥ cluster.capacity then
      let newCapacity := cluster.capacity * 2 % 2 ^ 64
      match reply with
      | .refused => some ⟨-1, cluster, true⟩
      | .freed => some ⟨-1, { cluster with atoms := none }, true⟩
      | .granted =>
        some (store (Blocks.realloc atoms (atomBytes newCapacity / 8)) cluster.count newCapacity atom)
    else some (store atoms cluster.count cluster.capacity atom)

/-- `none` is a read outside of the array, of an array that has been freed, or of a
cell that has not been written. -/
def akAtomClusterGet (cluster : Cluster α) (index : Nat) : Option (Option α) :=
  if index ≥ cluster.count then some none
  else
    match cluster.atoms with
    | none => none
    | some atoms => (fetch atoms index).map some

structure Event (α : Type) where
  atom : Option α
  reply : Reply
  code : Int
  deriving DecidableEq, Repr

/-- A call that writes outside of the array may return all the same. -/
inductive Step (c : Cluster α) : List (Event α) → Cluster α → Prop
  | add (atom : Option α) (reply : Reply) (code : Int) (c' : Cluster α) (inside : Bool)
    (hfreed : reply = .freed → atomBytes (c.capacity * 2 % 2 ^ 64) = 0)
    (h : akAtomClusterAdd c atom reply = some ⟨code, c', inside⟩) : Step c [⟨atom, reply, code⟩] c'

def added (trace : List (Event α)) : List α :=
  trace.filterMap fun event => if event.code = 0 then event.atom else none

/-- What a cluster is for. -/
def Bounded (c : Cluster α) (atoms : List α) : Prop :=
  c.count ≤ c.capacity ∧ ∀ index, akAtomClusterGet c index = some atoms[index]?

/-- There is a cell for one more atom, or a capacity that can be doubled; or the
larger array is refused. -/
def Room (c : Cluster α) (reply : Reply) : Prop :=
  if c.count < c.capacity then c.count < c.capacity % 2 ^ 61
  else reply = .refused ∨ reply = .granted ∧ 0 < c.capacity ∧ c.capacity < 2 ^ 60

def Fits (c : Cluster α) (events : List (Event α)) : Prop :=
  ∀ event ∈ events, event.atom ≠ none → Room c event.reply

structure Represents (c : Cluster α) (l : AtomModel.Cluster α) : Prop where
  block : ∃ atoms, c.atoms = some atoms ∧ atoms.length = c.capacity % 2 ^ 61 ∧ Holds atoms l.atoms
  count : c.count = l.atoms.length
  capacity : c.capacity = l.capacity
  bound : c.count ≤ c.capacity

theorem atomBytes_cells (n : Nat) : atomBytes n / 8 = n % 2 ^ 61 := by
  rw [atomBytes]
  omega

section Calls

variable {c c' : Cluster α} {l : AtomModel.Cluster α} {atoms : List (Option α)} {xs : List α} {atom : α}
  {reply : Reply} {count capacity : Nat}

theorem store_inside (hs : Holds atoms xs) (hlt : xs.length < atoms.length) (hle : xs.length < 2 ^ 61)
    (capacity : Nat) (atom : α) :
    ∃ atoms', store atoms xs.length capacity atom = ⟨0, ⟨some atoms', xs.length + 1, capacity⟩, true⟩ ∧
      Holds atoms' (xs ++ [atom]) ∧ atoms'.length = atoms.length := by
  have hgap : Gap atoms xs 1 [] := hs.gap_end hlt
  obtain ⟨atoms', hput, hgap'⟩ := hgap.put atom
  refine ⟨atoms', ?_, ?_, length_put hput⟩
  · rw [store, hput]
    dsimp only
    rw [Nat.mod_eq_of_lt (by omega)]
  · have hholds := hgap'.holds
    rwa [List.append_nil] at hholds

theorem store_outside (hle : atoms.length ≤ count) :
    store atoms count capacity atom = ⟨0, ⟨some atoms, (count + 1) % 2 ^ 64, capacity⟩, false⟩ := by
  rw [store, put, if_neg (by omega)]

theorem Represents.room (h : Represents c l) : c.count ≤ c.capacity % 2 ^ 61 := by
  obtain ⟨atoms, -, hlength, hholds⟩ := h.block
  have hle := hholds.length_le
  rw [h.count]
  omega

theorem Represents.bounded (h : Represents c l) : Bounded c l.atoms := by
  refine ⟨h.bound, fun index => ?_⟩
  obtain ⟨atoms, hatoms, -, hholds⟩ := h.block
  rw [akAtomClusterGet]
  by_cases hindex : index ≥ c.count
  · rw [if_pos hindex, List.getElem?_eq_none (by rw [← h.count]; exact hindex)]
  · have hlt : index < l.atoms.length := by
      rw [← h.count]
      omega
    rw [if_neg hindex, hatoms, List.getElem?_eq_getElem hlt]
    dsimp only
    rw [hholds.fetch hlt, Option.map_some]

theorem represents_new {n : Nat} {clusterGranted atomsGranted : Bool}
    (h : akAtomClusterNew n clusterGranted atomsGranted = some c) : Represents c ⟨[], n⟩ := by
  rw [akAtomClusterNew] at h
  split_ifs at h
  cases h
  exact ⟨⟨_, rfl, by rw [length_alloc, atomBytes_cells], holds_nil _⟩, rfl, rfl, Nat.zero_le n⟩

def Reply.grants (reply : Reply) : AtomModel.Grants := ⟨true, true, true, fun _ => reply = .granted⟩

theorem add_atoms (l : AtomModel.Cluster α) (atom : α) (grants : AtomModel.Grants) :
    (AtomModel.akAtomClusterAdd l atom grants).2.atoms =
      l.atoms ++ if (AtomModel.akAtomClusterAdd l atom grants).1 = 0 then [atom] else [] := by
  rw [AtomModel.akAtomClusterAdd]
  by_cases hfull : l.atoms.length ≥ l.capacity
  · rw [if_pos hfull]
    dsimp only
    split
    · exact (List.append_nil _).symm
    · rfl
  · rw [if_neg hfull]
    rfl

theorem add_capacity (l : AtomModel.Cluster α) (atom : α) (grants : AtomModel.Grants) :
    (AtomModel.akAtomClusterAdd l atom grants).2.capacity = l.capacity ∨
      l.capacity ≤ l.atoms.length ∧
        (AtomModel.akAtomClusterAdd l atom grants).2.capacity = l.capacity * 2 % 2 ^ 64 := by
  rw [AtomModel.akAtomClusterAdd]
  by_cases hfull : l.atoms.length ≥ l.capacity
  · rw [if_pos hfull]
    dsimp only
    split
    · exact .inl rfl
    · exact .inr ⟨hfull, rfl⟩
  · rw [if_neg hfull]
    exact .inl rfl

theorem Represents.add (h : Represents c l) (hroom : Room c reply) (atom : α) :
    ∃ c', akAtomClusterAdd c (some atom) reply = some ⟨(AtomModel.akAtomClusterAdd l atom reply.grants).1, c', true⟩ ∧
      Represents c' (AtomModel.akAtomClusterAdd l atom reply.grants).2 := by
  obtain ⟨atoms, hatoms, hlength, hholds⟩ := h.block
  have hle := h.room
  have hcount := h.count
  have hcapacity := h.capacity
  rw [Room] at hroom
  unfold akAtomClusterAdd
  rw [hatoms, AtomModel.akAtomClusterAdd]
  dsimp only
  by_cases hlt : c.count < c.capacity
  · rw [if_pos hlt] at hroom
    obtain ⟨atoms', hstore, hholds', hlength'⟩ := store_inside hholds (by omega) (by omega) c.capacity atom
    rw [if_neg (by omega), if_neg (by omega), hcount, hstore]
    exact ⟨_, rfl, ⟨atoms', rfl, hlength'.trans hlength, hholds'⟩, by simp, hcapacity, by dsimp only; omega⟩
  · rw [if_neg hlt] at hroom
    rw [if_pos (by omega), if_pos (by omega)]
    rcases hroom with rfl | ⟨rfl, hpos, hsmall⟩
    · exact ⟨c, rfl, h⟩
    · have hdouble : c.capacity * 2 % 2 ^ 64 = c.capacity * 2 := Nat.mod_eq_of_lt (by omega)
      have hcells : atomBytes (c.capacity * 2) / 8 = c.capacity * 2 := by
        rw [atomBytes_cells]
        omega
      have hgrown : Holds (Blocks.realloc atoms (c.capacity * 2)) l.atoms := hholds.realloc (by omega)
      obtain ⟨atoms', hstore, hholds', hlength'⟩ :=
        store_inside hgrown (by rw [length_realloc]; omega) (by omega) (c.capacity * 2) atom
      rw [← hcapacity, hdouble, hcells, hcount, hstore]
      rw [length_realloc] at hlength'
      refine ⟨_, rfl, ⟨atoms', rfl, ?_, hholds'⟩, ?_, rfl, ?_⟩
      · dsimp only
        omega
      · change l.atoms.length + 1 = (l.atoms ++ [atom]).length
        rw [List.length_append, List.length_singleton]
      · dsimp only
        omega

theorem get_outside (hle : atoms.length ≤ count) (hlt : count < 2 ^ 61) :
    akAtomClusterGet ⟨some atoms, (count + 1) % 2 ^ 64, capacity⟩ count = none := by
  rw [akAtomClusterGet, if_neg (by dsimp only; omega)]
  dsimp only
  rw [fetch, List.getElem?_eq_none hle]
  rfl

theorem Represents.overruns (h : Represents c l) {a : Addition α} (hroom : ¬Room c reply)
    (hadd : akAtomClusterAdd c (some atom) reply = some a) :
    a.cluster.atoms = none ∨ akAtomClusterGet a.cluster c.count = none := by
  obtain ⟨atoms, hatoms, hlength, hholds⟩ := h.block
  have hle := h.room
  rw [Room] at hroom
  unfold akAtomClusterAdd at hadd
  rw [hatoms] at hadd
  dsimp only at hadd
  by_cases hlt : c.count < c.capacity
  · rw [if_pos hlt] at hroom
    rw [if_neg (by omega), store_outside (by omega)] at hadd
    cases hadd
    exact .inr (get_outside (by omega) (by omega))
  · rw [if_neg hlt] at hroom
    rw [if_pos (by omega)] at hadd
    have hbound := h.bound
    cases reply with
    | refused => exact absurd (.inl rfl) hroom
    | freed =>
        cases hadd
        exact .inl rfl
    | granted =>
        have hsize : c.capacity = 0 ∨ 2 ^ 60 ≤ c.capacity := by
          by_contra hsmall
          exact hroom (.inr ⟨rfl, by omega, by omega⟩)
        have hshort : (Blocks.realloc atoms (atomBytes (c.capacity * 2 % 2 ^ 64) / 8)).length ≤ c.count := by
          rw [length_realloc, atomBytes_cells]
          omega
        dsimp only at hadd
        rw [store_outside hshort] at hadd
        cases hadd
        exact .inr (get_outside hshort (by omega))

end Calls

section Runs

variable {c c' c₀ : Cluster α} {l : AtomModel.Cluster α} {trace events : List (Event α)} {n : Nat}

theorem added_append (trace events : List (Event α)) : added (trace ++ events) = added trace ++ added events :=
  List.filterMap_append

theorem Represents.step (h : Represents c l) (hl : l.atoms = added trace) (hs : Step c events c')
    (hfits : Fits c events) :
    ∃ l', Represents c' l' ∧ l'.atoms = added (trace ++ events) ∧
      (l'.capacity = l.capacity ∨ l.capacity ≤ l.atoms.length ∧ l'.capacity = l.capacity * 2 % 2 ^ 64) := by
  obtain ⟨atom, reply, code, _, inside, -, hadd⟩ := hs
  cases atom with
  | none =>
      cases hadd
      exact ⟨l, h, by rw [hl, added_append]; exact (List.append_nil _).symm, .inl rfl⟩
  | some atom =>
      have hroom : Room c reply := hfits _ (List.mem_singleton_self _) (Option.some_ne_none atom)
      obtain ⟨c'', hcall, hc''⟩ := h.add hroom atom
      rw [hcall] at hadd
      cases hadd
      refine ⟨_, hc'', ?_, add_capacity l atom reply.grants⟩
      rw [add_atoms, hl, added_append]
      congr 1
      rw [added]
      split
      · simp [*]
      · simp [*]

theorem represents_of_run {clusterGranted atomsGranted : Bool}
    (hnew : akAtomClusterNew n clusterGranted atomsGranted = some c₀) (hrun : Run (guarded Fits Step) c₀ trace c) :
    ∃ l, Represents c l ∧ l.atoms = added trace := by
  apply hrun.invariant (P := fun trace c => ∃ l, Represents c l ∧ l.atoms = added trace)
  · exact ⟨_, represents_new hnew, rfl⟩
  · rintro trace c events c' ⟨l, h, hl⟩ ⟨hs, hfits⟩
    obtain ⟨l', h', hl', -⟩ := h.step hl hs hfits
    exact ⟨l', h', hl'⟩

theorem Represents.fits_iff (h : Represents c l) (hl : l.atoms = added trace) (hs : Step c events c') :
    c'.atoms ≠ none ∧ Bounded c' (added (trace ++ events)) ↔ Fits c events := by
  constructor
  · rintro ⟨hatoms, -, hget⟩ event hevent hatom
    by_contra hroom
    obtain ⟨atom, reply, code, _, inside, -, hadd⟩ := hs
    obtain rfl := List.mem_singleton.mp hevent
    obtain ⟨atom, rfl⟩ := Option.ne_none_iff_exists'.mp hatom
    rcases h.overruns hroom hadd with hnone | hnone
    · exact hatoms hnone
    · cases hnone.symm.trans (hget c.count)
  · intro hfits
    obtain ⟨l', h', hl', -⟩ := h.step hl hs hfits
    obtain ⟨atoms, hatoms, -, -⟩ := h'.block
    exact ⟨by rw [hatoms]; exact Option.some_ne_none atoms, hl' ▸ h'.bounded⟩

theorem Represents.fits (h : Represents c l) (hs : Step c events c') (hpos : 0 < l.capacity)
    (hsmall : l.capacity < 2 ^ 61) (hfew : l.atoms.length < 2 ^ 60) : Fits c events := by
  have hcount := h.count
  have hcapacity := h.capacity
  obtain ⟨atom, reply, code, _, inside, hfreed, -⟩ := hs
  intro event hevent _
  obtain rfl := List.mem_singleton.mp hevent
  rw [Room]
  by_cases hlt : c.count < c.capacity
  · rw [if_pos hlt]
    omega
  · rw [if_neg hlt]
    cases reply with
    | granted => exact .inr ⟨rfl, by omega, by omega⟩
    | refused => exact .inl rfl
    | freed =>
        have hbytes := hfreed rfl
        rw [atomBytes] at hbytes
        omega

theorem fits_of_few {clusterGranted atomsGranted : Bool}
    (hnew : akAtomClusterNew n clusterGranted atomsGranted = some c₀) (hpos : 0 < n) (hsmall : n < 2 ^ 61)
    (hrun : Run Step c₀ trace c) (hfew : trace.length ≤ 2 ^ 60) : Run (guarded Fits Step) c₀ trace c := by
  have hinv : trace.length ≤ 2 ^ 60 → Run (guarded Fits Step) c₀ trace c ∧
      ∃ l, Represents c l ∧ l.atoms = added trace ∧ 0 < l.capacity ∧ l.capacity < 2 ^ 61 := by
    apply hrun.invariant (P := fun trace c => trace.length ≤ 2 ^ 60 → Run (guarded Fits Step) c₀ trace c ∧
      ∃ l, Represents c l ∧ l.atoms = added trace ∧ 0 < l.capacity ∧ l.capacity < 2 ^ 61)
    · exact fun _ => ⟨.start, _, represents_new hnew, rfl, hpos, hsmall⟩
    · rintro trace c events c' ih hs hfew
      have hone : events.length = 1 := by
        cases hs
        rfl
      rw [List.length_append, hone] at hfew
      obtain ⟨hguarded, l, h, hl, hlpos, hlsmall⟩ := ih (by omega)
      have hcount : l.atoms.length ≤ trace.length := by
        rw [hl]
        exact List.length_filterMap_le _ _
      have hfits : Fits c events := h.fits hs hlpos hlsmall (by omega)
      obtain ⟨l', h', hl', hcapacity⟩ := h.step hl hs hfits
      refine ⟨hguarded.next ⟨hs, hfits⟩, l', h', hl', ?_⟩
      omega
  exact (hinv hfew).1

end Runs

/-- In every run whose calls fit, the count is within the capacity and the atoms are
found in the order of their calls; and no other call keeps this and the array.
Where the first array has its capacity, the calls of a run all fit if they are few. -/
theorem akAtomClusterAdd_bounded (n : Nat) (clusterGranted atomsGranted : Bool) (c₀ : Cluster α)
    (hnew : akAtomClusterNew n clusterGranted atomsGranted = some c₀) (trace : List (Event α)) (c : Cluster α)
    (hrun : Run (guarded Fits Step) c₀ trace c) :
    Bounded c (added trace) ∧
      (∀ events c', Step c events c' → (c'.atoms ≠ none ∧ Bounded c' (added (trace ++ events)) ↔ Fits c events)) ∧
      (0 < n → n < 2 ^ 61 → ∀ trace c, Run Step c₀ trace c → trace.length ≤ 2 ^ 60 →
        Run (guarded Fits Step) c₀ trace c) := by
  obtain ⟨l, h, hl⟩ := represents_of_run hnew hrun
  exact ⟨hl ▸ h.bounded, fun _ _ hs => h.fits_iff hl hs, fun hpos hsmall _ _ => fits_of_few hnew hpos hsmall⟩

theorem akAtomClusterAdd_bounded_grows :
    ∃ trace c, Run (guarded Fits Step) ⟨some [none], 0, 1⟩ trace c ∧ added trace = [false, true] ∧
      Bounded c (added trace) := by
  have hfirst : Step (⟨some [none], 0, 1⟩ : Cluster Bool) [⟨some false, .refused, 0⟩] ⟨some [some false], 1, 1⟩ :=
    .add (some false) .refused 0 _ true nofun (by decide)
  have hsecond : Step (⟨some [some false], 1, 1⟩ : Cluster Bool) [⟨some true, .granted, 0⟩]
      ⟨some [some false, some true], 2, 2⟩ := .add (some true) .granted 0 _ true nofun (by decide)
  have hroom : Room (⟨some [none], 0, 1⟩ : Cluster Bool) .refused := by
    simp [Room]
  have hroom' : Room (⟨some [some false], 1, 1⟩ : Cluster Bool) .granted := by
    simp [Room]
  have hrun : Run (guarded Fits Step) (⟨some [none], 0, 1⟩ : Cluster Bool) _ _ :=
    (Run.start.next ⟨hfirst, fun event hevent _ => List.mem_singleton.mp hevent ▸ hroom⟩).next
      ⟨hsecond, fun event hevent _ => List.mem_singleton.mp hevent ▸ hroom'⟩
  exact ⟨_, _, hrun, rfl, (akAtomClusterAdd_bounded 1 true true _ (by decide) _ _ hrun).1⟩

/-- A cluster without capacity stays so: an atom is counted that has no cell. -/
theorem akAtomClusterAdd_no_capacity :
    ∃ c₀ trace, ∃ c : Cluster Bool, akAtomClusterNew 0 true true = some c₀ ∧ Run Step c₀ trace c ∧
      c.capacity < c.count ∧ added trace = [true] ∧ akAtomClusterGet c 0 = none := by
  have hstep : Step (⟨some [], 0, 0⟩ : Cluster Bool) [⟨some true, .granted, 0⟩] ⟨some [], 1, 0⟩ :=
    .add (some true) .granted 0 _ false nofun (by decide)
  exact ⟨_, _, _, rfl, Run.start.next hstep, by decide, rfl, rfl⟩

end Ak24.AtomCluster
