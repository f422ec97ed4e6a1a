import Ak24.MapIteration

namespace Ak24.MapTraversal

open MapModel MapRefinement MapIteration Transition

variable {K V : Type} {ops : KeyOps K} {m : MapBase K V}

def resizeBytes (nbuckets : Unsigned) : Nat := (8 * (nbuckets.signExtend 64).toNat) % 2 ^ 64

def Grantable (m : MapBase K V) : Call K V → Prop
  | .set _ _ grants => grants.buckets = true → m.nbuckets ≤ m.nnodes →
    resizeBytes (if 0 < m.nbuckets then m.nbuckets <<< 1 else 1) < 2 ^ 63
  | .get _ | .remove _ => True

/-- Any call, with any number of entries. -/
def Step (ops : KeyOps K) (m : MapBase K V) (events : List (Call K V × Ret V)) (m' : MapBase K V) : Prop :=
  ∃ call ret, events = [(call, ret)] ∧ exec ops m call = some (ret, m') ∧ Grantable m call

def iterate (m : MapBase K V) : Nat → MapIter → Option (List (Option K) × MapIter)
  | 0, iter => some ([], iter)
  | n + 1, iter => do
    let (key, iter) ← mapNext m iter
    let (keys, iter) ← iterate m n iter
    some (key :: keys, iter)

/-- The iteration takes a call for each entry and gives every key that is present
once, and each of `n` further calls gives `NULL`. -/
def Complete (ops : KeyOps K) (m : MapBase K V) (n : Nat) : Prop :=
  ∃ (keys : List K) (iter iter' : MapIter), iterate m m.nnodes.toNat mapIter = some (keys.map some, iter) ∧
    iterate m n iter = some (List.replicate n none, iter') ∧
    (keys.Pairwise fun a b => ops.cmp a b ≠ 0) ∧
    ∀ key, (∃ value, mapGet ops m key = some (some value)) ↔ ∃ k ∈ keys, ops.cmp k key = 0

section Reachable

theorem not_grantable (hsize : m.nbuckets.toNat = 2 ^ 30) :
    ¬resizeBytes (if 0 < m.nbuckets then m.nbuckets <<< 1 else 1) < 2 ^ 63 := by
  obtain hnb : m.nbuckets = 2 ^ 30 := BitVec.eq_of_toNat_eq (hsize.trans (by decide))
  rw [hnb]
  decide

theorem mapRemove_nbuckets {m' : MapBase K V} {key : K} (h : mapRemove ops m key = some m') :
    m'.nbuckets = m.nbuckets := by
  rw [mapRemove] at h
  obtain ⟨r, -, h⟩ := Option.bind_eq_some_iff.mp h
  cases r with
  | none => cases h; rfl
  | some ij =>
      obtain ⟨chain, -, h⟩ := Option.bind_eq_some_iff.mp h
      cases h
      rfl

/-- The invariant of a run: there are never more entries than chains. -/
structure Fits (ops : KeyOps K) (m : MapBase K V) : Prop extends Valid ops m where
  fits : m.nnodes ≤ m.nbuckets

theorem Fits.granted_small (h : Fits ops m) {key : K} {value : V} {grants : Grants}
    (hgrantable : Grantable m (.set key value grants)) (hgranted : grants.buckets = true) :
    m.nnodes.toNat < 2 ^ 30 := by
  have hle := h.nbuckets_le
  have hfits := BitVec.le_def.mp h.fits
  by_contra hlarge
  have hsize : m.nbuckets.toNat = 2 ^ 30 := by omega
  exact not_grantable hsize (hgrantable hgranted (BitVec.le_def.mpr (by omega)))

theorem Fits.step {events : List (Call K V × Ret V)} {m' : MapBase K V} (h : Fits ops m) (hs : Step ops m events m') :
    Fits ops m' := by
  obtain ⟨call, ret, rfl, hexec, hgrantable⟩ := hs
  cases call with
  | set key value grants =>
      obtain ⟨code, m₁, hset, hvalid, -, -, hfits⟩ :=
        mapSet_spec_of_granted h.toValid key value grants (h.granted_small hgrantable)
      simp only [exec, hset, Option.map_some, Option.some.injEq, Prod.mk.injEq] at hexec
      obtain ⟨rfl, rfl⟩ := hexec
      exact ⟨hvalid, hfits h.fits⟩
  | get key =>
      obtain ⟨r, hget, -⟩ := mapGet_spec h.toValid key
      simp only [exec, hget, Option.map_some, Option.some.injEq, Prod.mk.injEq] at hexec
      obtain ⟨rfl, rfl⟩ := hexec
      exact h
  | remove key =>
      obtain ⟨m₁, hremove, hvalid, hlength, -⟩ := mapRemove_spec h.toValid key
      simp only [exec, hremove, Option.map_some, Option.some.injEq, Prod.mk.injEq] at hexec
      obtain ⟨rfl, rfl⟩ := hexec
      refine ⟨hvalid, ?_⟩
      have hfits := BitVec.le_def.mp h.fits
      rw [BitVec.le_def, mapRemove_nbuckets hremove, hvalid.count]
      rw [h.count] at hfits
      omega

theorem fits_of_run {trace : List (Call K V × Ret V)} (h : Run (Step ops) (mapInit K V) trace m) : Fits ops m :=
  h.invariant (P := fun _ m => Fits ops m) ⟨represents_init.valid, BitVec.le_refl _⟩ fun _ _ _ _ hf hs => hf.step hs

end Reachable

section Calls

theorem iterate_add (a b : Nat) (iter : MapIter) :
    iterate m (a + b) iter = (do
      let (keys, iter) ← iterate m a iter
      let (keys', iter) ← iterate m b iter
      some (keys ++ keys', iter)) := by
  induction a generalizing iter with
  | zero => simp [iterate]
  | succ a ih =>
      rw [Nat.add_right_comm, iterate, iterate]
      cases mapNext m iter with
      | none => rfl
      | some r => simp [ih, Option.bind_assoc]

theorem iterate_succ {iter iter₁ iter₂ : MapIter} {n : Nat} {key : Option K} {keys : List (Option K)}
    (hnext : mapNext m iter = some (key, iter₁)) (h : iterate m n iter₁ = some (keys, iter₂)) :
    iterate m (n + 1) iter = some (key :: keys, iter₂) := by
  simp only [iterate, hnext, h, bind, Option.bind]

theorem iterate_remaining (hlength : m.buckets.length = m.nbuckets.toNat) {nodes : List (MapNode K V)} {iter : MapIter}
    (h : Standing m iter) (hnodes : remaining m iter = nodes) :
    ∃ iter', iterate m nodes.length iter = some (nodes.map fun node => some node.key, iter') ∧
      Standing m iter' ∧ remaining m iter' = [] := by
  induction nodes generalizing iter with
  | nil => exact ⟨iter, rfl, h, hnodes⟩
  | cons node nodes ih =>
      obtain ⟨hnil, -⟩ | ⟨node', iter₁, hnext, hcons, hstanding⟩ := mapNext_advances hlength h
      · rw [hnodes] at hnil
        cases hnil
      · obtain ⟨rfl, hrest⟩ := List.cons.inj (hnodes.symm.trans hcons)
        obtain ⟨iter', hiterate, hdone⟩ := ih hstanding hrest.symm
        exact ⟨iter', iterate_succ hnext hiterate, hdone⟩

theorem mapNext_past {idx : Unsigned} (h : m.nbuckets ≤ idx + 1) :
    mapNext m ⟨idx, none⟩ = some (none, ⟨idx + 1, none⟩) := by
  rw [mapNext, nextBucket, if_pos h]

/-- Behind the last bucket the index goes up with every call, until it wraps. -/
theorem iterate_past (k n : Nat) (hk : m.nbuckets.toNat + (k + n) < 2 ^ 32) :
    iterate m n ⟨m.nbuckets + BitVec.ofNat 32 k, none⟩ =
      some (List.replicate n none, ⟨m.nbuckets + BitVec.ofNat 32 (k + n), none⟩) := by
  induction n generalizing k with
  | zero => rfl
  | succ n ih =>
      have hidx : m.nbuckets + BitVec.ofNat 32 k + 1 = m.nbuckets + BitVec.ofNat 32 (k + 1) := by
        rw [BitVec.add_assoc, BitVec.ofNat_add]
        rfl
      have hle : m.nbuckets ≤ m.nbuckets + BitVec.ofNat 32 k + 1 := by
        rw [hidx, BitVec.le_def, BitVec.toNat_add, BitVec.toNat_ofNat, Nat.mod_eq_of_lt (by omega : k + 1 < 2 ^ 32),
          Nat.mod_eq_of_lt (by omega)]
        omega
      have hrest := ih (k + 1) (by omega)
      rw [show k + 1 + n = k + (n + 1) by omega, ← hidx] at hrest
      exact iterate_succ (mapNext_past hle) hrest

theorem iterate_ended {iter : MapIter} (hnext : mapNext m iter = some (none, ⟨m.nbuckets, none⟩)) {n : Nat}
    (hn : m.nbuckets.toNat + n < 2 ^ 32) :
    iterate m (n + 1) iter = some (List.replicate (n + 1) none, ⟨m.nbuckets + BitVec.ofNat 32 n, none⟩) := by
  have hpast := iterate_past (m := m) 0 n (by omega)
  rw [BitVec.add_zero, Nat.zero_add] at hpast
  exact iterate_succ hnext hpast

theorem iterate_empty (hlength : m.buckets.length = m.nbuckets.toNat) (hempty : contents m = []) (n : Nat)
    (idx : Unsigned) : ∃ iter, iterate m n ⟨idx, none⟩ = some (List.replicate n none, iter) := by
  induction n generalizing idx with
  | zero => exact ⟨_, rfl⟩
  | succ n ih =>
      have hnext : ∃ idx', mapNext m ⟨idx, none⟩ = some (none, ⟨idx', none⟩) := by
        by_cases hend : m.nbuckets ≤ idx + 1
        · exact ⟨_, mapNext_past hend⟩
        · rw [BitVec.le_def, not_le] at hend
          obtain ⟨-, hr⟩ | ⟨node, iter, -, hcons, -⟩ :=
            mapNext_advances hlength (show Standing m ⟨idx, none⟩ from ⟨hend.le, nofun⟩)
          · exact ⟨_, hr⟩
          · have hmem : node ∈ contents m := by
              have hnode : node ∈ remaining m ⟨idx, none⟩ := by simp [hcons]
              simp only [remaining, List.mem_flatten] at hnode
              obtain ⟨chain, hchain, hnode⟩ := hnode
              exact List.mem_flatten.mpr ⟨chain, List.mem_of_mem_drop hchain, hnode⟩
            rw [hempty] at hmem
            cases hmem
      obtain ⟨idx', hnext⟩ := hnext
      obtain ⟨iter, hiterate⟩ := ih idx'
      exact ⟨iter, iterate_succ hnext hiterate⟩

end Calls

section Complete

theorem iterate_contents (h : Valid ops m) :
    ∃ iter, iterate m m.nnodes.toNat mapIter = some (((contents m).map MapNode.key).map some, iter) ∧
      mapNext m iter = some (none, ⟨m.nbuckets, none⟩) := by
  obtain ⟨iter, hiterate, hstanding, hnil⟩ := iterate_remaining h.length standing_mapIter remaining_mapIter
  refine ⟨iter, ?_, ?_⟩
  · rw [h.count, hiterate, List.map_map]
    rfl
  · obtain ⟨-, hnext⟩ | ⟨node, iter', -, hcons, -⟩ := mapNext_advances h.length hstanding
    · exact hnext
    · rw [hnil] at hcons
      cases hcons

theorem keys_present (h : Valid ops m) :
    (((contents m).map MapNode.key).Pairwise fun a b => ops.cmp a b ≠ 0) ∧
      ∀ key, (∃ value, mapGet ops m key = some (some value)) ↔
        ∃ k ∈ (contents m).map MapNode.key, ops.cmp k key = 0 := by
  refine ⟨List.pairwise_map.mpr h.distinct, fun key => ?_⟩
  simp only [mapGet_eq_some h, List.mem_map]
  constructor
  · rintro ⟨value, node, hnode, hcmp, -⟩
    exact ⟨node.key, ⟨node, hnode, rfl⟩, hcmp⟩
  · rintro ⟨k, ⟨node, hnode, rfl⟩, hcmp⟩
    exact ⟨node.value, node, hnode, hcmp, rfl⟩

theorem complete_iff_iterate (h : Valid ops m) {iter : MapIter}
    (hkeys : iterate m m.nnodes.toNat mapIter = some (((contents m).map MapNode.key).map some, iter)) (n : Nat) :
    Complete ops m n ↔ ∃ iter', iterate m n iter = some (List.replicate n none, iter') := by
  constructor
  · rintro ⟨keys, iter₁, iter', hfirst, hrest, -⟩
    rw [hkeys, Option.some.injEq, Prod.mk.injEq] at hfirst
    rw [← hfirst.2] at hrest
    exact ⟨iter', hrest⟩
  · rintro ⟨iter', hrest⟩
    exact ⟨_, iter, iter', hkeys, hrest, keys_present h⟩

/-- The index wraps to the one an iterator starts with, and the iteration starts
again. -/
theorem iterate_wraps (h : Valid ops m) (hne : contents m ≠ []) {iter : MapIter}
    (hend : mapNext m iter = some (none, ⟨m.nbuckets, none⟩)) {n : Nat} (hn : 2 ^ 32 - m.nbuckets.toNat < n) :
    ¬∃ iter', iterate m n iter = some (List.replicate n none, iter') := by
  have hsize := h.nbuckets_le
  have hpos : 0 < m.nbuckets.toNat := by
    rw [← h.length]
    apply List.length_pos_of_ne_nil
    rintro hb
    exact hne (by simp [contents, hb])
  obtain ⟨r, rfl⟩ : ∃ r, n = 2 ^ 32 - 1 - m.nbuckets.toNat + 1 + (r + 1) :=
    ⟨n - (2 ^ 32 - m.nbuckets.toNat) - 1, by omega⟩
  have hlast : m.nbuckets + BitVec.ofNat 32 (2 ^ 32 - 1 - m.nbuckets.toNat) = -1 := by
    apply BitVec.eq_of_toNat_eq
    rw [BitVec.toNat_add, BitVec.toNat_ofNat, Nat.mod_eq_of_lt (by omega : 2 ^ 32 - 1 - m.nbuckets.toNat < 2 ^ 32)]
    rw [show m.nbuckets.toNat + (2 ^ 32 - 1 - m.nbuckets.toNat) = 2 ^ 32 - 1 by omega]
    rfl
  obtain ⟨hnil, -⟩ | ⟨node, iter₁, hfirst, -⟩ := mapNext_advances h.length (standing_mapIter (m := m))
  · rw [remaining_mapIter] at hnil
    exact absurd hnil hne
  have hstart : mapNext m ⟨-1, none⟩ = some (some node.key, iter₁) := hfirst
  rintro ⟨iter', hiterate⟩
  rw [iterate_add, iterate_ended hend (by omega), hlast] at hiterate
  simp only [bind, Option.bind, iterate, hstart] at hiterate
  cases hrest : iterate m r iter₁ with
  | none => simp [hrest] at hiterate
  | some rest =>
      simp only [hrest, Option.some.injEq, Prod.mk.injEq] at hiterate
      have hmem : some node.key ∈ List.replicate (2 ^ 32 - 1 - m.nbuckets.toNat + 1 + (r + 1)) none := by
        rw [← hiterate.1]
        simp
      cases List.eq_of_mem_replicate hmem

end Complete

/-- In every run the iteration is complete, with as many calls after the last key
as one likes in an empty map, and in another as many as the index goes up without
wrapping. -/
theorem traversal_complete_iff (ops : KeyOps K) (trace : List (Call K V × Ret V)) (m : MapBase K V)
    (h : Run (Step ops) (mapInit K V) trace m) (n : Nat) :
    Complete ops m n ↔ m.nnodes = 0 ∨ n ≤ 2 ^ 32 - m.nbuckets.toNat := by
  have hvalid := (fits_of_run h).toValid
  have hsize := hvalid.nbuckets_le
  have hempty : m.nnodes = 0 ↔ contents m = [] := by
    rw [← List.length_eq_zero_iff, ← hvalid.count]
    exact ⟨fun h0 => by rw [h0]; rfl, fun h0 => BitVec.eq_of_toNat_eq h0⟩
  obtain ⟨iter, hkeys, hend⟩ := iterate_contents hvalid
  rw [complete_iff_iterate hvalid hkeys, hempty]
  constructor
  · intro hcomplete
    by_contra hcond
    rw [not_or, not_le] at hcond
    exact iterate_wraps hvalid hcond.1 hend hcond.2 hcomplete
  · rintro (hnil | hn)
    · cases n with
      | zero => exact ⟨iter, rfl⟩
      | succ n =>
          obtain ⟨iter', hiterate⟩ := iterate_empty hvalid.length hnil n m.nbuckets
          exact ⟨iter', iterate_succ hend hiterate⟩
    · cases n with
      | zero => exact ⟨iter, rfl⟩
      | succ n => exact ⟨_, iterate_ended hend (by omega)⟩

theorem traversal_complete_keys : ∃ (m : MapBase Nat Nat) (trace : List (Call Nat Nat × Ret Nat)),
    Run (Step numberOps) (mapInit Nat Nat) trace m ∧
      trace = [(.set 5 50 ⟨true, true⟩, .status 0), (.set 8 80 ⟨true, true⟩, .status 0),
        (.set 6 60 ⟨true, true⟩, .status 0), (.set 9 90 ⟨true, true⟩, .status 0), (.remove 8, .void)] ∧
      m.nbuckets = 4 ∧ m.nnodes = 3 ∧ Complete numberOps m 3 := by
  have hset5 : Run (Step numberOps) (mapInit Nat Nat) _ _ :=
    Run.start.next ⟨.set 5 50 ⟨true, true⟩, _, rfl, rfl, by simp [Grantable]; decide⟩
  have hset8 : Run (Step numberOps) (mapInit Nat Nat) _ _ :=
    hset5.next ⟨.set 8 80 ⟨true, true⟩, _, rfl, rfl, by simp [Grantable]; decide⟩
  have hset6 : Run (Step numberOps) (mapInit Nat Nat) _ _ :=
    hset8.next ⟨.set 6 60 ⟨true, true⟩, _, rfl, rfl, by simp [Grantable]; decide⟩
  have hset9 : Run (Step numberOps) (mapInit Nat Nat) _ _ :=
    hset6.next ⟨.set 9 90 ⟨true, true⟩, _, rfl, rfl, by simp [Grantable]; decide⟩
  have hremove : Run (Step numberOps) (mapInit Nat Nat) _ _ :=
    hset9.next ⟨.remove 8, _, rfl, rfl, trivial⟩
  exact ⟨_, _, hremove, rfl, rfl, rfl, (traversal_complete_iff numberOps _ _ hremove 3).mpr (.inr (by decide))⟩

/-- With one key in one bucket the call number `2 ^ 32 + 1` gives the key again. -/
theorem traversal_restarts : ∃ m : MapBase Nat Nat, Run (Step numberOps) (mapInit Nat Nat)
      [(.set 5 50 ⟨true, true⟩, .status 0)] m ∧ ¬Complete numberOps m (2 ^ 32) := by
  have hrun : Run (Step numberOps) (mapInit Nat Nat) _ _ :=
    Run.start.next ⟨.set 5 50 ⟨true, true⟩, _, rfl, rfl, by simp [Grantable]; decide⟩
  have hvalid := (fits_of_run hrun).toValid
  obtain ⟨iter, hkeys, hend⟩ := iterate_contents hvalid
  refine ⟨_, hrun, ?_⟩
  rw [complete_iff_iterate hvalid hkeys]
  exact iterate_wraps hvalid (by decide) hend (by decide)

end Ak24.MapTraversal
