import Ak24.MapModel
import Ak24.Buckets
import Ak24.Words
import Ak24.Transition

namespace Ak24.MapRefinement

open MapModel Buckets Transition Words

variable {K V : Type} {ops : KeyOps K} {m : MapBase K V}

def contents (m : MapBase K V) : List (MapNode K V) := m.buckets.flatten

/-- The bucket array has the size it says, none or a power of two of chains, and
every node is in the bucket its hash selects. -/
structure Placed (ops : KeyOps K) (m : MapBase K V) : Prop where
  length : m.buckets.length = m.nbuckets.toNat
  shape : m.nbuckets = 0 ∨ ∃ j ≤ 30, m.nbuckets.toNat = 2 ^ j
  home : ∀ i chain, m.buckets[i]? = some chain → ∀ node ∈ chain,
    i = mapBucketidx m node.hash ∧ node.hash = ops.hash node.key

structure Valid (ops : KeyOps K) (m : MapBase K V) : Prop extends Placed ops m where
  count : m.nnodes.toNat = (contents m).length
  distinct : (contents m).Pairwise fun a b => ops.cmp a.key b.key ≠ 0

theorem bucketidx_lt (h : Placed ops m) (hpos : 0 < m.nbuckets) (hash : Unsigned) :
    mapBucketidx m hash < m.buckets.length := by
  rw [h.length]
  rcases h.shape with h0 | ⟨j, -, hj⟩
  · rw [h0] at hpos
    exact absurd hpos (lt_irrefl 0)
  · rw [mapBucketidx, and_mask_toNat hj, hj]
    exact Nat.mod_lt _ (Nat.two_pow_pos j)

theorem Placed.set_chain (h : Placed ops m) {i : Nat} {chain : List (MapNode K V)}
    (hchain : ∀ node ∈ chain, i = mapBucketidx m node.hash ∧ node.hash = ops.hash node.key) (nnodes : Unsigned) :
    Placed ops { m with buckets := m.buckets.set i chain, nnodes } where
  length := by rw [List.length_set, h.length]
  shape := h.shape
  home := by
    intro n c hc
    rcases getElem?_set_cases hc with ⟨rfl, rfl⟩ | hold
    · exact hchain
    · exact h.home n c hold

section AddNode

theorem mapAddnode_spec (h : Placed ops m) (hpos : 0 < m.nbuckets) {node : MapNode K V}
    (hn : node.hash = ops.hash node.key) :
    ∃ m', mapAddnode m node = some m' ∧ Placed ops m' ∧ m'.nbuckets = m.nbuckets ∧ m'.nnodes = m.nnodes ∧
      (contents m').Perm (node :: contents m) := by
  have hlt := bucketidx_lt h hpos node.hash
  have hget := List.getElem?_eq_getElem hlt
  refine ⟨_, by rw [mapAddnode, hget], h.set_chain ?_ m.nnodes, rfl, rfl, push_perm hget node⟩
  intro x hx
  rcases List.mem_cons.mp hx with rfl | hx
  · exact ⟨rfl, hn⟩
  · exact h.home _ _ hget x hx

theorem addNodes_spec {nodes : List (MapNode K V)} (h : Placed ops m) (hpos : 0 < m.nbuckets)
    (hn : ∀ node ∈ nodes, node.hash = ops.hash node.key) :
    ∃ m', addNodes m nodes = some m' ∧ Placed ops m' ∧ m'.nbuckets = m.nbuckets ∧ m'.nnodes = m.nnodes ∧
      (contents m').Perm (nodes ++ contents m) := by
  induction nodes generalizing m with
  | nil => exact ⟨m, rfl, h, rfl, rfl, List.Perm.refl _⟩
  | cons node nodes ih =>
      obtain ⟨m', hadd, hplaced, hnb, hnn, hperm⟩ := mapAddnode_spec h hpos (hn node (by simp))
      obtain ⟨m'', hadds, hplaced', hnb', hnn', hperm'⟩ := ih hplaced (hnb ▸ hpos) fun x hx => hn x (by simp [hx])
      refine ⟨m'', by rw [addNodes, hadd]; exact hadds, hplaced', hnb'.trans hnb, hnn'.trans hnn, ?_⟩
      exact hperm'.trans ((hperm.append_left nodes).trans List.perm_middle)

theorem collectNodes_perm (buckets : List (List (MapNode K V))) : (collectNodes buckets).Perm buckets.flatten := by
  have hfold : ∀ (chain nodes : List (MapNode K V)),
      chain.foldl (fun nodes node => node :: nodes) nodes = chain.reverse ++ nodes := by
    intro chain
    induction chain with
    | nil => exact fun _ => rfl
    | cons node chain ih =>
        intro nodes
        rw [List.foldl_cons, ih, List.reverse_cons, List.append_assoc, List.singleton_append]
  induction buckets with
  | nil => exact List.Perm.refl _
  | cons chain buckets ih =>
      rw [collectNodes, List.foldr_cons, hfold, List.flatten_cons]
      exact (List.reverse_perm chain).append ih

theorem placed_empty {n : Unsigned} (hn : n = 0 ∨ ∃ j ≤ 30, n.toNat = 2 ^ j) (nnodes : Unsigned) :
    Placed ops (⟨List.replicate n.toNat [], n, nnodes⟩ : MapBase K V) where
  length := List.length_replicate
  shape := hn
  home := by
    intro i chain hc node hnode
    rw [List.getElem?_replicate] at hc
    split_ifs at hc
    cases hc
    cases hnode

theorem hash_of_mem (h : Placed ops m) {node : MapNode K V} (hn : node ∈ contents m) :
    node.hash = ops.hash node.key := by
  obtain ⟨chain, hc, hnode⟩ := List.mem_flatten.mp hn
  obtain ⟨i, hi⟩ := List.mem_iff_getElem?.mp hc
  exact (h.home i chain hi node hnode).2

/-- Rehashing, whether or not the new bucket array is granted: every node is back
in a bucket that its hash selects. -/
theorem mapResize_spec (h : Placed ops m) (granted : Bool) {n : Unsigned} {j : Nat} (hj : j ≤ 30)
    (hn : n.toNat = 2 ^ j) :
    ∃ m', mapResize granted m n = some (if granted then 0 else -1, m') ∧ Placed ops m' ∧ m'.nnodes = m.nnodes ∧
      m'.nbuckets = (if granted then n else m.nbuckets) ∧ (contents m').Perm (contents m) := by
  have hnodes : ∀ node ∈ collectNodes m.buckets, node.hash = ops.hash node.key := fun node hnode =>
    hash_of_mem h ((collectNodes_perm m.buckets).mem_iff.mp hnode)
  have hempty : ∀ (nb : Unsigned), contents (⟨List.replicate nb.toNat [], nb, m.nnodes⟩ : MapBase K V) = [] := by
    intro nb
    simp [contents]
  have hrehash : ∀ nb : Unsigned, (∃ j ≤ 30, nb.toNat = 2 ^ j) →
      ∃ m', addNodes (⟨List.replicate nb.toNat [], nb, m.nnodes⟩ : MapBase K V) (collectNodes m.buckets) = some m' ∧
        Placed ops m' ∧ m'.nnodes = m.nnodes ∧ m'.nbuckets = nb ∧ (contents m').Perm (contents m) := by
    rintro nb ⟨i, hi, hnb⟩
    have hpos : 0 < nb := by
      rw [BitVec.lt_def, hnb]
      exact Nat.two_pow_pos i
    obtain ⟨m', hadd, hplaced, hnb', hnn', hperm⟩ :=
      addNodes_spec (placed_empty (V := V) (Or.inr ⟨i, hi, hnb⟩) m.nnodes) hpos hnodes
    rw [hempty, List.append_nil] at hperm
    exact ⟨m', hadd, hplaced, hnn', hnb', hperm.trans (collectNodes_perm _)⟩
  cases granted with
  | true =>
      obtain ⟨m', hadd, hplaced, hnn', hnb', hperm⟩ := hrehash n ⟨j, hj, hn⟩
      refine ⟨m', ?_, hplaced, hnn', hnb', hperm⟩
      have hne : List.replicate n.toNat ([] : List (MapNode K V)) ≠ [] := by
        rw [Ne, List.replicate_eq_nil_iff, hn]
        exact (Nat.two_pow_pos j).ne'
      simp only [mapResize, if_true, if_neg hne, hadd, bind, Option.bind]
  | false =>
      by_cases hb : m.buckets = []
      · exact ⟨m, by simp [mapResize, hb, bind, Option.bind], h, rfl, rfl, List.Perm.refl _⟩
      · have hshape : ∃ j ≤ 30, m.nbuckets.toNat = 2 ^ j := by
          refine h.shape.resolve_left fun h0 => hb (List.length_eq_zero_iff.mp ?_)
          rw [h.length, h0]
          rfl
        obtain ⟨m', hadd, hplaced, hnn', hnb', hperm⟩ := hrehash m.nbuckets hshape
        exact ⟨m', by simp [mapResize, hb, bind, Option.bind, hadd], hplaced, hnn', hnb', hperm⟩

end AddNode

section Lookup

theorem mapGetref_spec (h : Placed ops m) (key : K) :
    (mapGetref ops m key = some none ∧ ∀ node ∈ contents m, ops.cmp node.key key ≠ 0) ∨
      ∃ i j pre post l r node, mapGetref ops m key = some (some (i, j)) ∧ ops.cmp node.key key = 0 ∧
        m.buckets = pre ++ (l ++ node :: r) :: post ∧ pre.length = i ∧ l.length = j := by
  by_cases hpos : 0 < m.nbuckets
  · have hlt := bucketidx_lt h hpos (ops.hash key)
    obtain ⟨pre, post, hb, hpre, -⟩ := split_bucket (List.getElem?_eq_getElem hlt)
    rw [mapGetref, if_pos hpos, List.getElem?_eq_getElem hlt]
    generalize m.buckets[mapBucketidx m (ops.hash key)] = chain at hb
    cases hf : chain.findIdx? fun node => node.hash == ops.hash key && ops.cmp node.key key == 0 with
    | none =>
        left
        refine ⟨by simp [hf], fun node hnode heq => ?_⟩
        have hhash := hash_of_mem h hnode
        obtain ⟨c, hc, hnc⟩ := List.mem_flatten.mp hnode
        obtain ⟨i, hi⟩ := List.mem_iff_getElem?.mp hc
        have hkey : node.hash = ops.hash key := hhash.trans (ops.hash_eq _ _ heq)
        have hhome := (h.home i c hi node hnc).1
        rw [hkey, ← hpre] at hhome
        rw [hhome, hb, List.getElem?_append_right le_rfl, Nat.sub_self] at hi
        cases hi
        have := List.findIdx?_eq_none_iff.mp hf node hnc
        simp [hkey, heq] at this
    | some j =>
        right
        obtain ⟨hj, hp, -⟩ := List.findIdx?_eq_some_iff_getElem.mp hf
        have heq : ops.cmp chain[j].key key = 0 := by
          simp only [Bool.and_eq_true, beq_iff_eq] at hp
          exact hp.2
        refine ⟨_, j, pre, post, chain.take j, chain.drop (j + 1), chain[j], by simp [hf], heq, ?_, hpre, ?_⟩
        · rw [List.getElem_cons_drop, List.take_append_drop, hb]
        · rw [List.length_take]
          omega
  · left
    refine ⟨by rw [mapGetref, if_neg hpos], ?_⟩
    have hnil : m.buckets = [] := by
      rw [← List.length_eq_zero_iff, h.length]
      rw [BitVec.not_lt, BitVec.le_def] at hpos
      simpa using hpos
    simp [contents, hnil]

variable {i j : Nat} {pre post : List (List (MapNode K V))} {l r : List (MapNode K V)} {node : MapNode K V}

theorem getElem?_bucket (hb : m.buckets = pre ++ (l ++ node :: r) :: post) (hi : pre.length = i) :
    m.buckets[i]? = some (l ++ node :: r) := by
  rw [hb, ← hi, List.getElem?_append_right le_rfl, Nat.sub_self]
  rfl

theorem getElem?_chain (hj : l.length = j) : (l ++ node :: r)[j]? = some node := by
  rw [← hj, List.getElem?_append_right le_rfl, Nat.sub_self]
  rfl

theorem contents_split (hb : m.buckets = pre ++ (l ++ node :: r) :: post) :
    contents m = (pre.flatten ++ l) ++ node :: (r ++ post.flatten) := by
  simp [contents, hb]

theorem set_split (hb : m.buckets = pre ++ (l ++ node :: r) :: post) (hi : pre.length = i)
    (chain : List (MapNode K V)) : (m.buckets.set i chain).flatten = pre.flatten ++ chain ++ post.flatten := by
  rw [hb, ← hi, List.set_append_right _ _ le_rfl, Nat.sub_self]
  simp

end Lookup

section Calls

def Holds (ops : KeyOps K) (m : MapBase K V) (key : K) (value : V) : Prop :=
  ∃ node ∈ contents m, ops.cmp node.key key = 0 ∧ node.value = value

theorem Holds.perm {m' : MapBase K V} (hp : (contents m').Perm (contents m)) (key : K) (value : V) :
    Holds ops m' key value ↔ Holds ops m key value := by
  simp only [Holds, hp.mem_iff]

section Split

variable {as bs : List (MapNode K V)} {node : MapNode K V} {k : K}

theorem distinct_split (h : Valid ops m) (hcont : contents m = as ++ node :: bs) (hk : ops.cmp node.key k = 0) :
    ∀ n ∈ as ++ bs, ops.cmp n.key k ≠ 0 := by
  intro n hn hnk
  have hd := h.distinct
  rw [hcont, List.pairwise_append, List.pairwise_cons] at hd
  have hsame : ops.cmp n.key node.key = 0 := ops.trans _ _ _ hnk (ops.symm _ _ hk)
  rcases List.mem_append.mp hn with hn | hn
  · exact hd.2.2 n hn node List.mem_cons_self hsame
  · exact hd.2.1.1 n hn (ops.symm _ _ hsame)

theorem holds_split (h : Valid ops m) (hcont : contents m = as ++ node :: bs) {v : V} :
    Holds ops m k v ↔
      if ops.cmp node.key k = 0 then node.value = v else ∃ n ∈ as ++ bs, ops.cmp n.key k = 0 ∧ n.value = v := by
  rw [Holds, hcont]
  split_ifs with hk
  · constructor
    · rintro ⟨n, hn, hnk, hv⟩
      by_cases hother : n ∈ as ++ bs
      · exact absurd hnk (distinct_split h hcont hk n hother)
      · obtain rfl : n = node := by
          simp only [List.mem_append, List.mem_cons] at hn hother
          tauto
        exact hv
    · exact fun hv => ⟨node, by simp, hk, hv⟩
  · constructor
    · rintro ⟨n, hn, hnk, hv⟩
      have hne : n ≠ node := fun heq => hk (heq ▸ hnk)
      exact ⟨n, by simpa [hne] using hn, hnk, hv⟩
    · rintro ⟨n, hn, hnk, hv⟩
      refine ⟨n, ?_, hnk, hv⟩
      simp only [List.mem_append, List.mem_cons] at hn ⊢
      exact hn.imp id .inr

end Split

theorem mapGet_spec (h : Valid ops m) (key : K) :
    ∃ r, mapGet ops m key = some r ∧ ∀ value, r = some value ↔ Holds ops m key value := by
  rcases mapGetref_spec h.toPlaced key with ⟨href, hno⟩ | ⟨i, j, pre, post, l, r, node, href, heq, hb, hi, hj⟩
  · refine ⟨none, by simp [mapGet, href], fun value => ?_⟩
    simp only [reduceCtorEq, false_iff]
    rintro ⟨n, hn, hc, -⟩
    exact hno n hn hc
  · refine ⟨some node.value, ?_, fun value => ?_⟩
    · simp [mapGet, href, getElem?_bucket hb hi, getElem?_chain hj]
    · rw [holds_split h (contents_split hb), if_pos heq, Option.some.injEq]

theorem Holds.unique (h : Valid ops m) {key : K} {value value' : V} (hv : Holds ops m key value)
    (hv' : Holds ops m key value') : value = value' := by
  obtain ⟨r, -, hr⟩ := mapGet_spec h key
  have hsame := ((hr value).mpr hv).symm.trans ((hr value').mpr hv')
  exact Option.some.inj hsame

theorem Holds.of_mem {node : MapNode K V} (hn : node ∈ contents m) : Holds ops m node.key node.value :=
  ⟨node, hn, ops.refl node.key, rfl⟩

theorem mapGet_eq_some (h : Valid ops m) {key : K} {value : V} :
    mapGet ops m key = some (some value) ↔ Holds ops m key value := by
  obtain ⟨r, hget, hr⟩ := mapGet_spec h key
  rw [hget, Option.some.injEq, hr]

theorem mapGet_eq_none (h : Valid ops m) {key : K} :
    mapGet ops m key = some none ↔ ∀ value, ¬Holds ops m key value := by
  obtain ⟨r, hget, hr⟩ := mapGet_spec h key
  rw [hget, Option.some.injEq]
  simp only [← hr]
  cases r <;> simp

theorem mapGet_congr {m' : MapBase K V} (h : Valid ops m) (h' : Valid ops m')
    (hholds : ∀ key value, Holds ops m' key value ↔ Holds ops m key value) (key : K) :
    mapGet ops m' key = mapGet ops m key := by
  obtain ⟨r, hget, hr⟩ := mapGet_spec h key
  obtain ⟨r', hget', hr'⟩ := mapGet_spec h' key
  rw [hget, hget', Option.some.injEq]
  apply Option.ext
  intro value
  rw [hr', hholds, hr]

theorem Valid.distinct_perm (h : Valid ops m) {nodes : List (MapNode K V)} (hp : nodes.Perm (contents m)) :
    nodes.Pairwise fun a b => ops.cmp a.key b.key ≠ 0 :=
  (hp.pairwise_iff fun hne he => hne (ops.symm _ _ he)).mpr h.distinct

theorem mapRemove_spec (h : Valid ops m) (key : K) :
    ∃ m', mapRemove ops m key = some m' ∧ Valid ops m' ∧ (contents m').length ≤ (contents m).length ∧
      ∀ k value, Holds ops m' k value ↔ ops.cmp key k ≠ 0 ∧ Holds ops m k value := by
  rcases mapGetref_spec h.toPlaced key with ⟨href, hno⟩ | ⟨i, j, pre, post, l, r, node, href, heq, hb, hi, hj⟩
  · refine ⟨m, by simp [mapRemove, href], h, le_rfl, fun k value => ⟨fun hk => ⟨fun hc => ?_, hk⟩, And.right⟩⟩
    obtain ⟨n, hn, hnk, -⟩ := hk
    exact hno n hn (ops.trans _ _ _ hnk (ops.symm _ _ hc))
  · have hget := getElem?_bucket hb hi
    have hchain : (l ++ node :: r).eraseIdx j = l ++ r := by
      rw [← hj, List.eraseIdx_append_of_length_le le_rfl, Nat.sub_self]
      rfl
    have hcont : contents { m with buckets := m.buckets.set i (l ++ r), nnodes := m.nnodes - 1 } =
        (pre.flatten ++ l) ++ (r ++ post.flatten) := by
      rw [contents, set_split hb hi]
      simp
    have hall := contents_split hb
    have hd := h.distinct
    rw [hall, List.pairwise_append] at hd
    have hlen : (contents m).length = ((pre.flatten ++ l) ++ (r ++ post.flatten)).length + 1 := by
      rw [hall]
      simp only [List.length_append, List.length_cons]
      omega
    refine ⟨{ m with buckets := m.buckets.set i (l ++ r), nnodes := m.nnodes - 1 },
      by simp [mapRemove, href, hget, hchain], ⟨h.toPlaced.set_chain ?_ (m.nnodes - 1), ?_, ?_⟩, ?_, ?_⟩
    · intro n hn
      refine h.home i _ hget n ?_
      rw [List.mem_append] at hn
      rw [List.mem_append, List.mem_cons]
      exact hn.imp id Or.inr
    · have hcount := h.count
      rw [hcont, BitVec.toNat_sub_of_le (by rw [BitVec.le_def]; simp; omega), hcount, hlen]
      rfl
    · rw [hcont, List.pairwise_append]
      exact ⟨hd.1, (List.pairwise_cons.mp hd.2.1).2, fun a ha b hbm => hd.2.2 a ha b (by simp [hbm])⟩
    · rw [hcont, hlen]
      omega
    · intro k value
      rw [holds_split h hall, Holds, hcont]
      by_cases hc : ops.cmp key k = 0
      · simp only [ne_eq, hc, not_true, false_and, iff_false]
        rintro ⟨n, hn, hnk, -⟩
        exact distinct_split h hall (ops.trans _ _ _ heq hc) n hn hnk
      · have hnode : ops.cmp node.key k ≠ 0 := fun hk => hc (ops.trans _ _ _ (ops.symm _ _ heq) hk)
        rw [if_neg hnode, and_iff_right hc]

theorem Valid.rekey {ops' : KeyOps K} (h : Valid ops m)
    (hhash : ∀ node ∈ contents m, ops'.hash node.key = ops.hash node.key)
    (hcmp : ∀ a ∈ contents m, ∀ b ∈ contents m, ops'.cmp a.key b.key = ops.cmp a.key b.key) : Valid ops' m := by
  refine ⟨⟨h.length, h.shape, fun i chain hchain node hnode => ?_⟩, h.count, ?_⟩
  · obtain ⟨hhome, hkey⟩ := h.home i chain hchain node hnode
    have hmem : node ∈ contents m := List.mem_flatten.mpr ⟨chain, List.mem_of_getElem? hchain, hnode⟩
    exact ⟨hhome, hkey.trans (hhash node hmem).symm⟩
  · apply h.distinct.imp_of_mem
    intro a b ha hb hne
    rw [hcmp a ha b hb]
    exact hne

def Stored (ops : KeyOps K) (m m' : MapBase K V) (key : K) (value : V) (code : Int) : Prop :=
  (code = 0 ∧ ∀ k v, Holds ops m' k v ↔ if ops.cmp key k = 0 then v = value else Holds ops m k v) ∨
    (code = -1 ∧ ∀ k v, Holds ops m' k v ↔ Holds ops m k v)

theorem mapSet_found (h : Valid ops m) {key : K} {i j : Nat} {pre post : List (List (MapNode K V))}
    {l r : List (MapNode K V)} {node : MapNode K V} (heq : ops.cmp node.key key = 0)
    (hb : m.buckets = pre ++ (l ++ node :: r) :: post) (hi : pre.length = i) (hj : l.length = j) (value : V) :
    Valid ops { m with buckets := m.buckets.set i ((l ++ node :: r).set j { node with value }) } ∧
      Stored ops m { m with buckets := m.buckets.set i ((l ++ node :: r).set j { node with value }) } key value 0 := by
  have hget := getElem?_bucket hb hi
  have hchain : (l ++ node :: r).set j { node with value } = l ++ { node with value } :: r := by
    rw [← hj, List.set_append_right _ _ le_rfl, Nat.sub_self]
    rfl
  have hcont : contents { m with buckets := m.buckets.set i (l ++ { node with value } :: r) } =
      (pre.flatten ++ l) ++ { node with value } :: (r ++ post.flatten) := by
    rw [contents, set_split hb hi]
    simp
  have hall := contents_split hb
  have hd := h.distinct
  rw [hall, List.pairwise_append, List.pairwise_cons] at hd
  rw [hchain]
  have hvalid : Valid ops { m with buckets := m.buckets.set i (l ++ { node with value } :: r) } := by
    refine ⟨h.toPlaced.set_chain ?_ m.nnodes, ?_, ?_⟩
    · intro n hn
      have hold := fun hn => h.home i _ hget n hn
      rw [List.mem_append, List.mem_cons] at hn
      rcases hn with hn | rfl | hn
      · exact hold (by simp [hn])
      · exact h.home i _ hget node (by simp)
      · exact hold (by simp [hn])
    · rw [hcont, h.count, hall]
      simp
    · rw [hcont, List.pairwise_append, List.pairwise_cons]
      refine ⟨hd.1, ⟨hd.2.1.1, hd.2.1.2⟩, fun a ha b hbm => ?_⟩
      rcases List.mem_cons.mp hbm with rfl | hbm
      · exact hd.2.2 a ha node (by simp)
      · exact hd.2.2 a ha b (by simp [hbm])
  refine ⟨hvalid, Or.inl ⟨rfl, fun k v => ?_⟩⟩
  rw [holds_split hvalid hcont, holds_split h hall]
  by_cases hk : ops.cmp key k = 0
  · rw [if_pos (ops.trans _ _ _ heq hk), if_pos hk, eq_comm]
  · have hnode : ops.cmp node.key k ≠ 0 := fun hc => hk (ops.trans _ _ _ (ops.symm _ _ heq) hc)
    rw [if_neg hnode, if_neg hnode, if_neg hk]

theorem resize_target (h : Placed ops m) (hfull : m.nbuckets ≤ m.nnodes) (hsmall : m.nnodes.toNat < 2 ^ 30) :
    ∃ j ≤ 30, (if 0 < m.nbuckets then m.nbuckets <<< 1 else 1).toNat = 2 ^ j := by
  rcases h.shape with h0 | ⟨j, -, hj⟩
  · exact ⟨0, by norm_num, by rw [h0]; rfl⟩
  · rw [BitVec.le_def, hj] at hfull
    have hj' : j < 30 := (Nat.pow_lt_pow_iff_right (by norm_num)).mp (hfull.trans_lt hsmall)
    have hpos : 0 < m.nbuckets := by
      rw [BitVec.lt_def, hj]
      exact Nat.two_pow_pos j
    refine ⟨j + 1, by omega, ?_⟩
    have hlt : 2 ^ (j + 1) < 2 ^ 32 := Nat.pow_lt_pow_right (by norm_num) (by omega)
    rw [if_pos hpos, BitVec.toNat_shiftLeft, hj, Nat.shiftLeft_eq, ← pow_add, Nat.mod_eq_of_lt hlt]

theorem Placed.nbuckets_le (h : Placed ops m) : m.nbuckets.toNat ≤ 2 ^ 30 := by
  rcases h.shape with h0 | ⟨j, hj, hn⟩
  · rw [h0]
    exact Nat.zero_le _
  · rw [hn]
    exact Nat.pow_le_pow_right (by norm_num) hj

theorem resize_room (h : Placed ops m) (hfits : m.nnodes ≤ m.nbuckets) (hsmall : m.nnodes.toNat < 2 ^ 30) {j : Nat}
    (hj : (if 0 < m.nbuckets then m.nbuckets <<< 1 else 1).toNat = 2 ^ j) : m.nnodes.toNat < 2 ^ j := by
  rw [BitVec.le_def] at hfits
  rw [← hj]
  split_ifs with hpos
  · have hle := h.nbuckets_le
    rw [BitVec.lt_def] at hpos
    have hpos' : 0 < m.nbuckets.toNat := hpos
    rw [BitVec.toNat_shiftLeft, Nat.shiftLeft_eq, Nat.mod_eq_of_lt (by omega)]
    omega
  · rw [BitVec.not_lt, BitVec.le_def] at hpos
    have hzero : m.nbuckets.toNat ≤ 0 := hpos
    show m.nnodes.toNat < 1
    omega

theorem makeRoom_spec (h : Valid ops m) (granted : Bool) (hsmall : granted = true → m.nnodes.toNat < 2 ^ 30) :
    ∃ code m', makeRoom granted m = some (code, m') ∧
      Placed ops m' ∧ m'.nnodes = m.nnodes ∧ (contents m').Perm (contents m) ∧
      (code = 0 ∧ 0 < m'.nbuckets ∧ m.nnodes.toNat < 2 ^ 30 ∧ (m.nnodes ≤ m.nbuckets → m.nnodes < m'.nbuckets) ∨
        code = -1 ∧ granted = false ∧ m'.nbuckets = m.nbuckets) := by
  by_cases hfull : m.nbuckets ≤ m.nnodes
  · cases granted with
    | true =>
        obtain ⟨j, hj, hn⟩ := resize_target h.toPlaced hfull (hsmall rfl)
        obtain ⟨m', hresize, hplaced, hnn, hnb, hperm⟩ := mapResize_spec h.toPlaced true hj hn
        refine ⟨0, m', by rw [makeRoom, if_pos hfull]; exact hresize, hplaced, hnn, hperm,
          Or.inl ⟨rfl, ?_, hsmall rfl, ?_⟩⟩
        · rw [hnb, if_pos rfl, BitVec.lt_def, hn]
          exact Nat.two_pow_pos j
        · intro hfits
          rw [hnb, if_pos rfl, BitVec.lt_def, hn]
          exact resize_room h.toPlaced hfits (hsmall rfl) hn
    | false =>
        -- a denied resize does not depend on the size it asks for
        obtain ⟨m', hresize, hplaced, hnn, hnb, hperm⟩ :=
          mapResize_spec h.toPlaced false (n := 1) (j := 0) (by omega) rfl
        exact ⟨-1, m', by rw [makeRoom, if_pos hfull]; exact hresize, hplaced, hnn, hperm, Or.inr ⟨rfl, rfl, hnb⟩⟩
  · have hroom : m.nnodes < m.nbuckets := BitVec.not_le.mp hfull
    refine ⟨0, m, by rw [makeRoom, if_neg hfull], h.toPlaced, rfl, List.Perm.refl _,
      Or.inl ⟨rfl, ?_, ?_, fun _ => hroom⟩⟩
    · rw [BitVec.lt_def] at hroom ⊢
      exact (Nat.zero_le _).trans_lt hroom
    · exact (BitVec.lt_def.mp hroom).trans_le h.nbuckets_le

theorem valid_insert (h : Valid ops m) {key : K} (value : V) (hno : ∀ node ∈ contents m, ops.cmp node.key key ≠ 0)
    (hsmall : m.nnodes.toNat < 2 ^ 30) {m' : MapBase K V} (hplaced : Placed ops m') (hnn : m'.nnodes = m.nnodes)
    (hperm : (contents m').Perm (⟨ops.hash key, key, value⟩ :: contents m)) :
    Valid ops { m' with nnodes := m'.nnodes + 1 } ∧
      Stored ops m { m' with nnodes := m'.nnodes + 1 } key value 0 := by
  refine ⟨⟨⟨hplaced.length, hplaced.shape, hplaced.home⟩, ?_, ?_⟩, Or.inl ⟨rfl, fun k v => ?_⟩⟩
  · have hlen := hperm.length_eq
    rw [List.length_cons, ← h.count] at hlen
    show (m'.nnodes + 1).toNat = (contents m').length
    rw [hnn, hlen, BitVec.toNat_add]
    exact Nat.mod_eq_of_lt (by simp; omega)
  · have hpair : (⟨ops.hash key, key, value⟩ :: contents m).Pairwise fun a b => ops.cmp a.key b.key ≠ 0 :=
      List.pairwise_cons.mpr ⟨fun n hn he => hno n hn (ops.symm _ _ he), h.distinct⟩
    exact (hperm.pairwise_iff fun hne he => hne (ops.symm _ _ he)).mpr hpair
  · have hmem : ∀ n, n ∈ contents m' ↔ n = ⟨ops.hash key, key, value⟩ ∨ n ∈ contents m := fun n => by
      rw [hperm.mem_iff, List.mem_cons]
    show (∃ n ∈ contents m', ops.cmp n.key k = 0 ∧ n.value = v) ↔ _
    split_ifs with hk
    · constructor
      · rintro ⟨n, hn, hnk, rfl⟩
        rcases (hmem n).mp hn with rfl | hn
        · rfl
        · exact absurd (ops.trans _ _ _ hnk (ops.symm _ _ hk)) (hno n hn)
      · rintro rfl
        exact ⟨_, (hmem _).mpr (Or.inl rfl), hk, rfl⟩
    · constructor
      · rintro ⟨n, hn, hnk, hv⟩
        rcases (hmem n).mp hn with rfl | hn
        · exact absurd hnk hk
        · exact ⟨n, hn, hnk, hv⟩
      · rintro ⟨n, hn, hnk, hv⟩
        exact ⟨n, (hmem n).mpr (Or.inr hn), hnk, hv⟩

theorem mapSet_spec_of_granted (h : Valid ops m) (key : K) (value : V) (grants : Grants)
    (hsmall : grants.buckets = true → m.nnodes.toNat < 2 ^ 30) :
    ∃ code m', mapSet ops m key value grants = some (code, m') ∧ Valid ops m' ∧ Stored ops m m' key value code ∧
      (grants.node = true → grants.buckets = true → code = 0) ∧
      (m.nnodes ≤ m.nbuckets → m'.nnodes ≤ m'.nbuckets) := by
  rcases mapGetref_spec h.toPlaced key with ⟨href, hno⟩ | ⟨i, j, pre, post, l, r, node, href, heq, hb, hi, hj⟩
  swap
  · obtain ⟨hvalid, hstored⟩ := mapSet_found h heq hb hi hj value
    exact ⟨0, _, by simp [mapSet, href, getElem?_bucket hb hi, getElem?_chain hj], hvalid, hstored, fun _ _ => rfl, id⟩
  cases hnode : grants.node with
  | false =>
      refine ⟨-1, m, by simp [mapSet, href, hnode], h, Or.inr ⟨rfl, fun k v => Iff.rfl⟩, ?_, id⟩
      rintro ⟨⟩
  | true =>
      obtain ⟨code, m', hroom, hplaced, hnn, hperm, hcode⟩ := makeRoom_spec h grants.buckets hsmall
      rcases hcode with ⟨rfl, hpos, hlt, hfits⟩ | ⟨rfl, hdenied, hnb⟩
      · have hhash : (⟨ops.hash key, key, value⟩ : MapNode K V).hash = ops.hash key := rfl
        obtain ⟨m'', hadd, hplaced', hnb', hnn', hperm'⟩ := mapAddnode_spec hplaced hpos hhash
        obtain ⟨hvalid, hstored⟩ := valid_insert h value hno hlt hplaced' (hnn'.trans hnn)
          (hperm'.trans (hperm.cons _))
        refine ⟨0, { m'' with nnodes := m''.nnodes + 1 }, ?_, hvalid, hstored, fun _ _ => rfl, fun hle => ?_⟩
        · simp [mapSet, href, hnode, hroom, hadd]
        · have hroom' := BitVec.lt_def.mp (hfits hle)
          rw [← hnb'] at hroom'
          rw [BitVec.le_def]
          show (m''.nnodes + 1).toNat ≤ m''.nbuckets.toNat
          rw [hnn', hnn, BitVec.toNat_add, Nat.mod_eq_of_lt (by simp; omega)]
          exact hroom'
      · refine ⟨-1, m', by simp [mapSet, href, hnode, hroom], ⟨hplaced, ?_, h.distinct_perm hperm⟩,
          Or.inr ⟨rfl, fun k v => Holds.perm hperm k v⟩, ?_, fun hle => by rwa [hnn, hnb]⟩
        · rw [hnn, h.count, hperm.length_eq]
        · rw [hdenied]
          rintro _ ⟨⟩

theorem mapSet_spec (h : Valid ops m) (key : K) (value : V) (grants : Grants) (hsmall : m.nnodes.toNat < 2 ^ 30) :
    ∃ code m', mapSet ops m key value grants = some (code, m') ∧ Valid ops m' ∧ Stored ops m m' key value code ∧
      (grants.node = true → grants.buckets = true → code = 0) := by
  obtain ⟨code, m', hset, hvalid, hstored, hcode, -⟩ := mapSet_spec_of_granted h key value grants fun _ => hsmall
  exact ⟨code, m', hset, hvalid, hstored, hcode⟩

theorem mapSet_room (hroom : m.nnodes < m.nbuckets) (key : K) (value : V) (grants : Grants) :
    mapSet ops m key value grants = mapSet ops m key value { grants with buckets := true } := by
  have hfull : ¬m.nbuckets ≤ m.nnodes := BitVec.not_le.mpr hroom
  simp only [mapSet, makeRoom, if_neg hfull]

theorem mapSet_stores (h : Valid ops m) (key : K) (value : V) {grants : Grants} (hsmall : m.nnodes.toNat < 2 ^ 30)
    (hnode : grants.node = true) (hroom : m.nnodes < m.nbuckets ∨ grants.buckets = true) :
    ∃ m', mapSet ops m key value grants = some (0, m') ∧ Valid ops m' ∧
      ∀ k v, Holds ops m' k v ↔ if ops.cmp key k = 0 then v = value else Holds ops m k v := by
  have hgrants : mapSet ops m key value grants = mapSet ops m key value ⟨true, true⟩ := by
    obtain ⟨node, buckets⟩ := grants
    obtain rfl : node = true := hnode
    rcases hroom with hroom | hbuckets
    · rw [mapSet_room hroom]
    · obtain rfl : buckets = true := hbuckets
      rfl
  obtain ⟨code, m', hset, hvalid, hstored, hcode⟩ := mapSet_spec h key value ⟨true, true⟩ hsmall
  obtain rfl := hcode rfl rfl
  rcases hstored with ⟨-, hholds⟩ | ⟨hbad, -⟩
  · exact ⟨m', hgrants.trans hset, hvalid, hholds⟩
  · cases hbad

theorem mapRemove_mapSet (h : Valid ops m) {key : K} (value : V) (grants : Grants) (hsmall : m.nnodes.toNat < 2 ^ 30)
    (hno : ∀ v, ¬Holds ops m key v) :
    ∃ code m₁ m₂, mapSet ops m key value grants = some (code, m₁) ∧ mapRemove ops m₁ key = some m₂ ∧ Valid ops m₂ ∧
      ∀ k v, Holds ops m₂ k v ↔ Holds ops m k v := by
  obtain ⟨code, m₁, hset, hvalid, hstored, -⟩ := mapSet_spec h key value grants hsmall
  obtain ⟨m₂, hremove, hvalid', -, hholds⟩ := mapRemove_spec hvalid key
  refine ⟨code, m₁, m₂, hset, hremove, hvalid', fun k v => ?_⟩
  have habsent : Holds ops m k v → ops.cmp key k ≠ 0 := by
    rintro ⟨node, hnode, hcmp, hvalue⟩ hkey
    exact hno v ⟨node, hnode, ops.trans _ _ _ hcmp (ops.symm _ _ hkey), hvalue⟩
  rw [hholds]
  rcases hstored with ⟨-, hstored⟩ | ⟨-, hstored⟩
  · rw [hstored]
    constructor
    · rintro ⟨hne, hk⟩
      rwa [if_neg hne] at hk
    · intro hk
      rw [if_neg (habsent hk)]
      exact ⟨habsent hk, hk⟩
  · rw [hstored]
    exact ⟨And.right, fun hk => ⟨habsent hk, hk⟩⟩

end Calls

inductive Call (K V : Type)
  | set (key : K) (value : V) (grants : Grants)
  | get (key : K)
  | remove (key : K)

inductive Ret (V : Type)
  | status (code : Int)
  | value (value : Option V)
  | void

def exec (ops : KeyOps K) (m : MapBase K V) : Call K V → Option (Ret V × MapBase K V)
  | .set key value grants => (mapSet ops m key value grants).map fun r => (.status r.1, r.2)
  | .get key => (mapGet ops m key).map fun r => (.value r, m)
  | .remove key => (mapRemove ops m key).map fun m => (.void, m)

/-- One call that leaves fewer than `2 ^ 30` entries. -/
def Step (ops : KeyOps K) (m : MapBase K V) (events : List (Call K V × Ret V)) (m' : MapBase K V) : Prop :=
  ∃ call ret, events = [(call, ret)] ∧ exec ops m call = some (ret, m') ∧ (contents m').length < 2 ^ 30

/-- The finite map that the calls build: a successful set stores, a remove
erases, everything else leaves it as it is. -/
def update (ops : KeyOps K) (f : K → Option V) : Call K V × Ret V → K → Option V
  | (.set key value _, .status code) => fun k => if code = 0 ∧ ops.cmp key k = 0 then some value else f k
  | (.remove key, _) => fun k => if ops.cmp key k = 0 then none else f k
  | _ => f

def view (ops : KeyOps K) (trace : List (Call K V × Ret V)) : K → Option V := trace.foldl (update ops) fun _ => none

structure Represents (ops : KeyOps K) (trace : List (Call K V × Ret V)) (m : MapBase K V) : Prop where
  valid : Valid ops m
  small : (contents m).length < 2 ^ 30
  holds : ∀ k v, view ops trace k = some v ↔ Holds ops m k v

theorem represents_init : Represents ops [] (mapInit K V) where
  valid := ⟨⟨rfl, Or.inl rfl, by simp [mapInit]⟩, rfl, List.Pairwise.nil⟩
  small := by norm_num [contents, mapInit]
  holds := by simp [view, Holds, contents, mapInit]

theorem Represents.nnodes_small {trace : List (Call K V × Ret V)} (h : Represents ops trace m) :
    m.nnodes.toNat < 2 ^ 30 := by
  rw [h.valid.count]
  exact h.small

theorem Represents.step {trace events : List (Call K V × Ret V)} {m' : MapBase K V} (h : Represents ops trace m)
    (hs : Step ops m events m') : Represents ops (trace ++ events) m' := by
  obtain ⟨call, ret, rfl, hexec, hsmall⟩ := hs
  have hview : ∀ e, view ops (trace ++ [e]) = update ops (view ops trace) e := fun e => by
    rw [view, List.foldl_append]
    rfl
  cases call with
  | set key value grants =>
      obtain ⟨code, m₁, hset, hvalid, hstored, -⟩ := mapSet_spec h.valid key value grants h.nnodes_small
      simp only [exec, hset, Option.map_some, Option.some.injEq, Prod.mk.injEq] at hexec
      obtain ⟨rfl, rfl⟩ := hexec
      refine ⟨hvalid, hsmall, fun k v => ?_⟩
      rw [hview, update]
      rcases hstored with ⟨rfl, hstored⟩ | ⟨rfl, hstored⟩
      · rw [hstored]
        by_cases hk : ops.cmp key k = 0
        · simp [hk, eq_comm]
        · simp [hk, h.holds]
      · simp [hstored, h.holds]
  | get key =>
      obtain ⟨r, hget, -⟩ := mapGet_spec h.valid key
      simp only [exec, hget, Option.map_some, Option.some.injEq, Prod.mk.injEq] at hexec
      obtain ⟨rfl, rfl⟩ := hexec
      exact ⟨h.valid, hsmall, fun k v => by rw [hview]; exact h.holds k v⟩
  | remove key =>
      obtain ⟨m₁, hremove, hvalid, -, hholds⟩ := mapRemove_spec h.valid key
      simp only [exec, hremove, Option.map_some, Option.some.injEq, Prod.mk.injEq] at hexec
      obtain ⟨rfl, rfl⟩ := hexec
      refine ⟨hvalid, hsmall, fun k v => ?_⟩
      rw [hview, update, hholds]
      by_cases hk : ops.cmp key k = 0
      · simp [hk]
      · simp [hk, h.holds]

theorem Represents.mapGet_eq {trace : List (Call K V × Ret V)} (h : Represents ops trace m) (key : K) :
    mapGet ops m key = some (view ops trace key) := by
  obtain ⟨r, hget, hr⟩ := mapGet_spec h.valid key
  rw [hget, Option.some.injEq]
  apply Option.ext
  intro v
  rw [hr, h.holds]

/-- In every run with fewer than `2 ^ 30` entries, whatever allocations fail: a
lookup returns the value of the last successful set of its key that no remove
follows, every call returns, a set that is granted its memory succeeds, a failed
one leaves every lookup as it was, and the table is well formed. -/
theorem map_refines (ops : KeyOps K) (trace : List (Call K V × Ret V)) (m : MapBase K V)
    (h : Run (Step ops) (mapInit K V) trace m) :
    (∀ key, mapGet ops m key = some (view ops trace key)) ∧
    (∀ key value grants, ∃ code m', mapSet ops m key value grants = some (code, m') ∧ (code = 0 ∨ code = -1) ∧
      (grants.node = true → grants.buckets = true → code = 0) ∧
      (code = -1 → ∀ k, mapGet ops m' k = mapGet ops m k)) ∧
    (∀ key, ∃ m', mapRemove ops m key = some m') ∧
    (∀ i chain, m.buckets[i]? = some chain → ∀ node ∈ chain,
      i = mapBucketidx m node.hash ∧ node.hash = ops.hash node.key) ∧
    (m.buckets.flatten.Pairwise fun a b => ops.cmp a.key b.key ≠ 0) ∧
    m.nnodes.toNat = m.buckets.flatten.length ∧ m.buckets.length = m.nbuckets.toNat ∧
    (m.nbuckets = 0 ∨ ∃ j, m.nbuckets.toNat = 2 ^ j) := by
  have hrep : Represents ops trace m := h.invariant represents_init fun _ _ _ _ => Represents.step
  refine ⟨hrep.mapGet_eq, ?_, ?_, hrep.valid.home, hrep.valid.distinct, hrep.valid.count, hrep.valid.length, ?_⟩
  · intro key value grants
    obtain ⟨code, m', hset, hvalid, hstored, hgranted⟩ := mapSet_spec hrep.valid key value grants hrep.nnodes_small
    refine ⟨code, m', hset, hstored.imp And.left And.left, hgranted, fun hcode k => ?_⟩
    rcases hstored with ⟨rfl, -⟩ | ⟨-, hsame⟩
    · exact absurd hcode (by norm_num)
    · exact mapGet_congr hrep.valid hvalid hsame k
  · intro key
    obtain ⟨m', hremove, -⟩ := mapRemove_spec hrep.valid key
    exact ⟨m', hremove⟩
  · exact hrep.valid.shape.imp id fun ⟨j, _, hj⟩ => ⟨j, hj⟩

def numberOps : KeyOps Nat where
  hash := BitVec.ofNat 32
  cmp a b := a - b
  refl := by omega
  symm := by omega
  trans := by omega
  hash_eq a b h := by rw [show a = b by omega]

theorem map_refines_denied_buckets :
    ∃ m : MapBase Nat Nat, Run (Step numberOps) (mapInit Nat Nat)
      [(.set 5 50 ⟨true, true⟩, .status 0), (.set 6 60 ⟨true, false⟩, .status (-1))] m ∧
      mapGet numberOps m 5 = some (some 50) := by
  have hfirst : Run (Step numberOps) (mapInit Nat Nat) _ _ :=
    Run.start.next ⟨.set 5 50 ⟨true, true⟩, _, rfl, rfl, by decide⟩
  have hrun := hfirst.next ⟨.set 6 60 ⟨true, false⟩, _, rfl, rfl, by decide⟩
  exact ⟨_, hrun, (map_refines numberOps _ _ hrun).1 5⟩

end Ak24.MapRefinement
