import Ak24.AtomModel
import Ak24.Chains

namespace Ak24.AtomSymmetry

open AtomBond AtomModel Chains NeighborLists Objects Transition

variable {α : Type} [DecidableEq α]

def nextOf (nodes : Heap (Neighbor α)) (n : Nat) : Option Nat := (nodes.cells n).bind Neighbor.next

def atomOf (nodes : Heap (Neighbor α)) (n : Nat) : Option α := (nodes.cells n).map Neighbor.atom

/-- The lists of the atoms are whole, and no node is in two of them. -/
structure Holds (s : Atoms α) (chains : α → List Nat) (lists : α → List α) : Prop where
  linked : ∀ a, Linked (nextOf s.nodes) (s.neighbors a) (chains a)
  atoms : ∀ a, (chains a).map (atomOf s.nodes) = (lists a).map some
  owned : ∀ a b n, n ∈ chains a → n ∈ chains b → a = b

section Heap

omit [DecidableEq α]

variable {nodes nodes' : Heap (Neighbor α)} {p : Option Nat} {ns : List Nat} {l : List α} {n : Nat}

theorem atomOf_eq_some (hatoms : ns.map (atomOf nodes) = l.map some) (hn : n ∈ ns) :
    ∃ node, nodes.cells n = some node := by
  have hmem : atomOf nodes n ∈ l.map some := hatoms ▸ List.mem_map_of_mem hn
  obtain ⟨b, -, hb⟩ := List.mem_map.mp hmem
  obtain ⟨node, hnode, -⟩ := Option.map_eq_some_iff.mp hb.symm
  exact ⟨node, hnode⟩

theorem lt_next_of_mem (hatoms : ns.map (atomOf nodes) = l.map some) (hn : n ∈ ns) : n < nodes.next := by
  obtain ⟨node, hnode⟩ := atomOf_eq_some hatoms hn
  exact nodes.lt_next hnode

theorem length_le_next (hlinked : Linked (nextOf nodes) p ns) (hatoms : ns.map (atomOf nodes) = l.map some) :
    ns.length ≤ nodes.next := by
  have hsub : ns.toFinset ⊆ Finset.range nodes.next := by
    intro n hn
    exact Finset.mem_range.mpr (lt_next_of_mem hatoms (List.mem_toFinset.mp hn))
  have hcard := Finset.card_le_card hsub
  rwa [List.toFinset_card_of_nodup hlinked.nodup, Finset.card_range] at hcard

theorem lists_of_linked (hlinked : Linked (nextOf nodes) p ns) (hatoms : ns.map (atomOf nodes) = l.map some) :
    Lists nodes p l := by
  induction ns generalizing p l with
  | nil =>
      obtain rfl : l = [] := by simpa using hatoms.symm
      exact hlinked
  | cons n ns ih =>
      cases l with
      | nil => simp at hatoms
      | cons b l =>
          rw [List.map_cons, List.map_cons, List.cons.injEq] at hatoms
          obtain ⟨rfl, hrest⟩ := hlinked
          obtain ⟨node, hnode, rfl⟩ := Option.map_eq_some_iff.mp hatoms.1
          rw [nextOf, hnode] at hrest
          exact ⟨n, node.next, rfl, hnode, ih hrest hatoms.2⟩

theorem walkList_eq (fuel : Nat) (h : Lists nodes p l) (hfuel : l.length ≤ fuel) : walkList nodes fuel p = some l := by
  induction l generalizing p fuel with
  | nil =>
      obtain rfl : p = none := h
      cases fuel <;> rfl
  | cons b l ih =>
      obtain ⟨n, next, rfl, hn, hrest⟩ := h
      cases fuel with
      | zero => simp at hfuel
      | succ fuel => simp [walkList, hn, ih fuel hrest (by simpa using hfuel)]

theorem linked_congr (h : Linked (nextOf nodes) p ns) (hcells : ∀ n ∈ ns, nodes'.cells n = nodes.cells n) :
    Linked (nextOf nodes') p ns :=
  h.congr fun n hn => by rw [nextOf, nextOf, hcells n hn]

theorem atoms_congr (h : ns.map (atomOf nodes) = l.map some) (hcells : ∀ n ∈ ns, nodes'.cells n = nodes.cells n) :
    ns.map (atomOf nodes') = l.map some := by
  rw [← h]
  exact List.map_congr_left fun n hn => by rw [atomOf, atomOf, hcells n hn]

section Splice

variable {prev node : Neighbor α} {q : Nat}

theorem cells_splice (next : Option Nat) {m : Nat} (hm : m ≠ n) (hmq : m ≠ q) :
    ((nodes.store q { prev with next }).free n).cells m = nodes.cells m := by
  rw [Heap.free_of_ne hm, Heap.store_of_ne hmq]

theorem cells_splice_self (next : Option Nat) (hprev : nodes.cells q = some prev) (hqn : q ≠ n) :
    ((nodes.store q { prev with next }).free n).cells q = some { prev with next } := by
  rw [Heap.free_of_ne hqn, Heap.store_self hprev]

theorem linked_splice {before after : List Nat} (h : Linked (nextOf nodes) p (before ++ q :: n :: after))
    (hprev : nodes.cells q = some prev) (hnode : nodes.cells n = some node) :
    Linked (nextOf ((nodes.store q { prev with next := node.next }).free n)) p (before ++ q :: after) := by
  have hnodup := List.nodup_cons.mp (List.nodup_middle.mp h.nodup)
  have hqn : q ≠ n := fun hqn => hnodup.1 (by simp [hqn])
  refine h.skip ?_ fun m hm => ?_
  · rw [nextOf, cells_splice_self _ hprev hqn, nextOf, hnode]
    rfl
  · have hmq : m ≠ q := by
      rintro rfl
      refine hnodup.1 ?_
      simp only [List.mem_append, List.mem_cons] at hm ⊢
      exact hm.imp id .inr
    have hmn : m ≠ n := by
      rintro rfl
      exact (List.nodup_cons.mp (List.nodup_middle.mp hnodup.2)).1 hm
    rw [nextOf, nextOf, cells_splice _ hmn hmq]

theorem atoms_splice (next : Option Nat) (hatoms : ns.map (atomOf nodes) = l.map some)
    (hprev : nodes.cells q = some prev) (hqn : q ≠ n) (hn : n ∉ ns) :
    ns.map (atomOf ((nodes.store q { prev with next }).free n)) = l.map some := by
  rw [← hatoms]
  apply List.map_congr_left
  intro m hm
  by_cases hmq : m = q
  · rw [hmq, atomOf, atomOf, cells_splice_self next hprev hqn, hprev]
    rfl
  · have hmn : m ≠ n := fun hmn => hn (hmn ▸ hm)
    rw [atomOf, atomOf, cells_splice next hmn hmq]

end Splice

end Heap

variable {s : Atoms α} {chains : α → List Nat} {lists : α → List α}

omit [DecidableEq α] in
theorem Holds.isList (h : Holds s chains lists) (a : α) : Lists s.nodes (s.neighbors a) (lists a) :=
  lists_of_linked (h.linked a) (h.atoms a)

section Push

theorem Holds.push (h : Holds s chains lists) (atom other : α) :
    Holds (s.push atom other) (Function.update chains atom (s.nodes.next :: chains atom))
      (Function.update lists atom (other :: lists atom)) := by
  have hcells : ∀ a, ∀ n ∈ chains a, (s.nodes.alloc ⟨other, s.neighbors atom⟩).cells n = s.nodes.cells n :=
    fun a n hn => Heap.alloc_of_ne (lt_next_of_mem (h.atoms a) hn).ne
  have hfresh : ∀ a, s.nodes.next ∉ chains a := fun a hn => (lt_next_of_mem (h.atoms a) hn).ne rfl
  refine ⟨fun a => ?_, fun a => ?_, fun a b n ha hb => ?_⟩
  · by_cases ha : a = atom
    · subst a
      simp only [Atoms.push, Function.update_self]
      refine ⟨rfl, ?_⟩
      rw [nextOf, Heap.alloc_self]
      exact linked_congr (h.linked atom) (hcells atom)
    · simp only [Atoms.push, Function.update_of_ne ha]
      exact linked_congr (h.linked a) (hcells a)
  · by_cases ha : a = atom
    · subst a
      simp only [Atoms.push, Function.update_self, List.map_cons]
      rw [atomOf, Heap.alloc_self, atoms_congr (h.atoms atom) (hcells atom)]
      rfl
    · simp only [Atoms.push, Function.update_of_ne ha]
      exact atoms_congr (h.atoms a) (hcells a)
  · -- the new node is in no other list
    have hcases : ∀ c, n ∈ Function.update chains atom (s.nodes.next :: chains atom) c →
        (c = atom ∧ n = s.nodes.next) ∨ n ∈ chains c := by
      intro c hc
      by_cases hca : c = atom
      · subst c
        rw [Function.update_self] at hc
        exact (List.mem_cons.mp hc).imp (fun hn => ⟨rfl, hn⟩) id
      · rw [Function.update_of_ne hca] at hc
        exact .inr hc
    rcases hcases a ha with ⟨rfl, rfl⟩ | ha
    · rcases hcases b hb with ⟨rfl, -⟩ | hb
      · rfl
      · exact absurd hb (hfresh b)
    · rcases hcases b hb with ⟨-, rfl⟩ | hb
      · exact absurd ha (hfresh a)
      · exact h.owned a b n ha hb

end Push

section Unlink

variable {atom other : α} {n : Nat} {node : Neighbor α}

theorem Holds.replace (h : Holds s chains lists) (neighbors : Option Nat) (nodes : Heap (Neighbor α)) {ns : List Nat}
    {l : List α} (hsub : ns ⊆ chains atom) (hcells : ∀ n ∉ chains atom, nodes.cells n = s.nodes.cells n)
    (hlinked : Linked (nextOf nodes) neighbors ns) (hatoms : ns.map (atomOf nodes) = l.map some) :
    Holds ⟨Function.update s.neighbors atom neighbors, nodes⟩ (Function.update chains atom ns)
      (Function.update lists atom l) := by
  have hother : ∀ a, a ≠ atom → ∀ n ∈ chains a, nodes.cells n = s.nodes.cells n :=
    fun a ha n hn => hcells n fun hn' => ha (h.owned a atom n hn hn')
  refine ⟨fun a => ?_, fun a => ?_, fun a b n ha hb => ?_⟩
  · by_cases ha : a = atom
    · subst a
      simpa only [Function.update_self] using hlinked
    · simp only [Function.update_of_ne ha]
      exact linked_congr (h.linked a) (hother a ha)
  · by_cases ha : a = atom
    · subst a
      simpa only [Function.update_self] using hatoms
    · simp only [Function.update_of_ne ha]
      exact atoms_congr (h.atoms a) (hother a ha)
  · have hold : ∀ c, n ∈ Function.update chains atom ns c → n ∈ chains c := by
      intro c hc
      by_cases hca : c = atom
      · subst c
        rw [Function.update_self] at hc
        exact hsub hc
      · rwa [Function.update_of_ne hca] at hc
    exact h.owned a b n (hold a ha) (hold b hb)

theorem splice_spec (h : Holds s chains lists) {before after : List Nat} {l l' : List α}
    (hchain : chains atom = before ++ n :: after) (hlist : lists atom = l ++ other :: l')
    (hlength : before.length = l.length) (hnode : s.nodes.cells n = some node) :
    ∃ s', splice s atom before.getLast? n node.next = some s' ∧
      Holds s' (Function.update chains atom (before ++ after)) (Function.update lists atom (l ++ l')) := by
  have hlinked := h.linked atom
  have hatoms := h.atoms atom
  have hnodup := hlinked.nodup
  rw [hchain] at hlinked hatoms hnodup
  rw [hlist, List.map_append, List.map_append] at hatoms
  obtain ⟨hatoms₁, hatoms₂⟩ := List.append_inj hatoms (by simpa using hlength)
  rw [List.map_cons, List.map_cons, List.cons.injEq] at hatoms₂
  have hkept : (before ++ after).map (atomOf s.nodes) = (l ++ l').map some := by
    rw [List.map_append, List.map_append, hatoms₁, hatoms₂.2]
  have hn : n ∉ before ++ after := by
    have hperm := (List.nodup_middle.mp hnodup)
    exact (List.nodup_cons.mp hperm).1
  have hsub : before ++ after ⊆ chains atom := by
    rw [hchain]
    intro m hm
    simp only [List.mem_append, List.mem_cons] at hm ⊢
    exact hm.imp id .inr
  have hmem : n ∈ chains atom := by simp [hchain]
  cases before using List.reverseRecOn with
  | nil =>
      have hcells : ∀ m, m ≠ n → (s.nodes.free n).cells m = s.nodes.cells m := fun m hm => Heap.free_of_ne hm
      refine ⟨_, rfl, h.replace _ _ hsub (fun m hm => hcells m fun hmn => hm (hmn ▸ hmem)) ?_ ?_⟩
      · have hrest : Linked (nextOf s.nodes) node.next after := by
          have := hlinked.2
          rwa [nextOf, hnode] at this
        exact linked_congr hrest fun m hm => hcells m fun hmn => hn (hmn ▸ hm)
      · exact atoms_congr hkept fun m hm => hcells m fun hmn => hn (hmn ▸ hm)
  | append_singleton before p =>
      have hp : p ∈ before ++ [p] ++ after := by simp
      obtain ⟨prev, hprev⟩ := atomOf_eq_some hkept hp
      have hpn : p ≠ n := fun hpn => hn (hpn ▸ hp)
      have hpmem : p ∈ chains atom := hsub hp
      have hresult := h.replace (s.neighbors atom) ((s.nodes.store p { prev with next := node.next }).free n)
        (l := l ++ l') hsub
        (fun m hm => cells_splice _ (fun hmn => hm (hmn ▸ hmem)) fun hmp => hm (hmp ▸ hpmem)) ?_
        (atoms_splice _ hkept hprev hpn hn)
      · rw [Function.update_eq_self] at hresult
        exact ⟨_, by simp [splice, hprev], hresult⟩
      · rw [List.append_assoc, List.singleton_append] at hlinked ⊢
        exact linked_splice hlinked hprev hnode

theorem unlink_loop (h : Holds s chains lists) {after : List Nat} (before : List Nat) (l : List α) {l' : List α}
    (fuel : Nat) (hchain : chains atom = before ++ after) (hlist : lists atom = l ++ l')
    (hlength : before.length = l.length)
    (hl : other ∉ l) (hfuel : after.length ≤ fuel) :
    ∃ s' chains', unlink s atom other fuel before.getLast? after.head? = some s' ∧
      Holds s' chains' (Function.update lists atom ((lists atom).erase other)) := by
  induction after generalizing before l l' fuel with
  | nil =>
      have hnil : l' = [] := by
        have hlen := congrArg List.length (h.atoms atom)
        rw [hchain, hlist] at hlen
        simpa [hlength] using hlen
      have herase : (lists atom).erase other = lists atom :=
        List.erase_of_not_mem (by rw [hlist, hnil, List.append_nil]; exact hl)
      refine ⟨s, chains, by cases fuel <;> rfl, ?_⟩
      rwa [herase, Function.update_eq_self]
  | cons n after ih =>
      have hatoms := h.atoms atom
      rw [hchain, hlist, List.map_append, List.map_append] at hatoms
      obtain ⟨-, hatoms⟩ := List.append_inj hatoms (by simpa using hlength)
      cases l' with
      | nil => simp at hatoms
      | cons b l' =>
          rw [List.map_cons, List.map_cons, List.cons.injEq] at hatoms
          obtain ⟨node, hnode, hatom⟩ := Option.map_eq_some_iff.mp hatoms.1
          have hlinked : Linked (nextOf s.nodes) (some n) (n :: after) := (hchain ▸ h.linked atom).suffix
          have hnext : node.next = after.head? := by
            have hrest := hlinked.2
            rw [nextOf, hnode] at hrest
            cases after with
            | nil => exact hrest
            | cons m after => exact hrest.1
          cases fuel with
          | zero => simp at hfuel
          | succ fuel =>
              rw [List.head?_cons, unlink, hnode]
              by_cases hb : b = other
              · subst hb
                obtain ⟨s', hsplice, hholds⟩ := splice_spec h hchain hlist hlength hnode
                refine ⟨s', Function.update chains atom (before ++ after), by simpa [hatom] using hsplice, ?_⟩
                have herase : (lists atom).erase b = l ++ l' := by
                  rw [hlist, List.erase_append_right _ hl, List.erase_cons_head]
                rw [herase]
                exact hholds
              · obtain ⟨s', chains', hloop, hholds⟩ := ih (before ++ [n]) (l ++ [b]) fuel
                  (by simpa using hchain) (show lists atom = (l ++ [b]) ++ l' by simpa using hlist) (by simp [hlength])
                  (by simp [hl, Ne.symm hb]) (by simpa using hfuel)
                refine ⟨s', chains', ?_, hholds⟩
                rw [List.getLast?_concat] at hloop
                simpa [hatom, hb, hnext] using hloop

theorem unlink_spec (h : Holds s chains lists) (atom other : α) :
    ∃ s' chains', unlink s atom other s.nodes.next none (s.neighbors atom) = some s' ∧
      Holds s' chains' (Function.update lists atom ((lists atom).erase other)) := by
  have hhead : s.neighbors atom = (chains atom).head? := by
    have hlinked := h.linked atom
    cases hchain : chains atom with
    | nil => rwa [hchain] at hlinked
    | cons n ns =>
        rw [hchain] at hlinked
        exact hlinked.1
  rw [hhead]
  exact unlink_loop h [] [] s.nodes.next rfl rfl rfl List.not_mem_nil
    (length_le_next (h.linked atom) (h.atoms atom))

end Unlink

inductive Call (α : Type)
  | bond (atom₁ atom₂ : Option α) (granted₁ granted₂ : Bool)
  | unbond (atom₁ atom₂ : Option α)

def exec (s : Atoms α) : Call α → Option (Int × Atoms α)
  | .bond atom₁ atom₂ granted₁ granted₂ => some (akAtomBond s atom₁ atom₂ granted₁ granted₂)
  | .unbond atom₁ atom₂ => akAtomUnbond s atom₁ atom₂

def Step (s : Atoms α) (events : List (Call α × Int)) (s' : Atoms α) : Prop :=
  ∃ call code, events = [(call, code)] ∧ exec s call = some (code, s')

def update (lists : α → List α) : Call α → α → List α
  | .bond (some a) (some b) true true => addBond lists a b
  | .unbond (some a) (some b) => removeBond lists a b
  | _ => lists

section Calls

theorem akAtomBond_spec (h : Holds s chains lists) (atom₁ atom₂ : Option α) (granted₁ granted₂ : Bool) :
    ∃ chains', Holds (akAtomBond s atom₁ atom₂ granted₁ granted₂).2 chains'
      (update lists (.bond atom₁ atom₂ granted₁ granted₂)) := by
  cases atom₁ with
  | none => exact ⟨chains, h⟩
  | some a =>
      cases atom₂ with
      | none => exact ⟨chains, h⟩
      | some b =>
          cases granted₁ with
          | false => exact ⟨chains, h⟩
          | true =>
              cases granted₂ with
              | false => exact ⟨chains, h⟩
              | true => exact ⟨_, (h.push a b).push b a⟩

theorem akAtomUnbond_spec (h : Holds s chains lists) (a b : α) :
    ∃ s' chains', akAtomUnbond s (some a) (some b) = some (0, s') ∧ Holds s' chains' (removeBond lists a b) := by
  obtain ⟨s₁, chains₁, hunlink, h₁⟩ := unlink_spec h a b
  obtain ⟨s₂, chains₂, hunlink₂, h₂⟩ := unlink_spec h₁ b a
  exact ⟨s₂, chains₂, by simp [akAtomUnbond, hunlink, hunlink₂], h₂⟩

theorem exec_spec (h : Holds s chains lists) (call : Call α) :
    ∃ code s' chains', exec s call = some (code, s') ∧ Holds s' chains' (update lists call) := by
  cases call with
  | bond atom₁ atom₂ granted₁ granted₂ =>
      obtain ⟨chains', h'⟩ := akAtomBond_spec h atom₁ atom₂ granted₁ granted₂
      exact ⟨_, _, chains', rfl, h'⟩
  | unbond atom₁ atom₂ =>
      cases atom₁ with
      | none => exact ⟨-1, s, chains, rfl, h⟩
      | some a =>
          cases atom₂ with
          | none => exact ⟨-1, s, chains, rfl, h⟩
          | some b =>
              obtain ⟨s', chains', hunbond, h'⟩ := akAtomUnbond_spec h a b
              exact ⟨0, s', chains', hunbond, h'⟩

theorem mutual_update (h : Mutual lists) (call : Call α) : Mutual (update lists call) := by
  rw [update.eq_def]
  split
  · exact h.addBond _ _
  · exact h.removeBond _ _
  · exact h

theorem holds_of_run {trace : List (Call α × Int)} (hrun : Run Step (Atoms.start α) trace s) :
    ∃ chains lists, Holds s chains lists ∧ Mutual lists := by
  apply hrun.invariant (P := fun _ s => ∃ chains lists, Holds s chains lists ∧ Mutual lists)
  · exact ⟨fun _ => [], fun _ => [], ⟨fun _ => rfl, fun _ => rfl, by simp⟩, fun _ _ => rfl⟩
  · rintro _ s events s' ⟨chains, lists, h, hsymm⟩ ⟨call, code, -, hexec⟩
    obtain ⟨code', s'', chains', hexec', h'⟩ := exec_spec h call
    rw [hexec] at hexec'
    cases hexec'
    exact ⟨chains', update lists call, h', mutual_update hsymm call⟩

end Calls

/-- In every run an atom is in another's list as often as that one is in its own. A
bond puts each into the other's list, unbonding takes one occurrence out of both,
and both leave all others. -/
theorem bonds_symmetric (trace : List (Call α × Int)) (s : Atoms α) (hrun : Run Step (Atoms.start α) trace s) :
    ∃ lists : α → List α, (∀ a, Lists s.nodes (s.neighbors a) (lists a)) ∧
      (∀ a b, (lists a).count b = (lists b).count a) ∧
      (∀ a b, ∃ (s' : Atoms α) (lists' : α → List α), akAtomBond s (some a) (some b) true true = (0, s') ∧
        (∀ c, Lists s'.nodes (s'.neighbors c) (lists' c)) ∧
        ∀ c d, (lists' c).count d =
          (lists c).count d + (if a = c ∧ b = d then 1 else 0) + if b = c ∧ a = d then 1 else 0) ∧
      ∀ a b, ∃ (s' : Atoms α) (lists' : α → List α), akAtomUnbond s (some a) (some b) = some (0, s') ∧
        (∀ c, Lists s'.nodes (s'.neighbors c) (lists' c)) ∧
        (a ≠ b → 0 < (lists a).count b →
          (lists' a).count b + 1 = (lists a).count b ∧ (lists' b).count a + 1 = (lists b).count a) ∧
        ∀ c d, ¬(c = a ∧ d = b) → ¬(c = b ∧ d = a) → (lists' c).count d = (lists c).count d := by
  obtain ⟨chains, lists, h, hsymm⟩ := holds_of_run hrun
  refine ⟨lists, h.isList, hsymm, fun a b => ?_, fun a b => ?_⟩
  · obtain ⟨chains', h'⟩ := akAtomBond_spec h (some a) (some b) true true
    exact ⟨_, addBond lists a b, rfl, h'.isList, count_addBond lists a b⟩
  · obtain ⟨s', chains', hunbond, h'⟩ := akAtomUnbond_spec h a b
    exact ⟨s', removeBond lists a b, hunbond, h'.isList, removeBond_bonded hsymm, fun c d => removeBond_other⟩

/-- An atom is bonded to another and to itself, and unbonded from the other. -/
theorem bonds_symmetric_self_bond : ∃ s s' : Atoms Nat,
    Run Step (Atoms.start Nat) [(.bond (some 0) (some 1) true true, 0), (.bond (some 0) (some 0) true true, 0)] s ∧
      Lists s.nodes (s.neighbors 0) [0, 0, 1] ∧ akAtomUnbond s (some 0) (some 1) = some (0, s') ∧
      ∃ l, Lists s'.nodes (s'.neighbors 0) l ∧ l.count 1 = 0 ∧ l.count 0 = 2 := by
  have r₁ : Run Step (Atoms.start Nat) _ _ := Run.start.next ⟨.bond (some 0) (some 1) true true, _, rfl, rfl⟩
  have r₂ := r₁.next ⟨.bond (some 0) (some 0) true true, _, rfl, rfl⟩
  obtain ⟨lists, hlists, -, -, hunbond⟩ := bonds_symmetric _ _ r₂
  obtain ⟨s', lists', hcall, hlists', hbonded, hothers⟩ := hunbond 0 1
  have hsame : lists 0 = [0, 0, 1] :=
    (hlists 0).unique ⟨3, some 2, rfl, rfl, 2, some 0, rfl, rfl, 0, none, rfl, rfl, rfl⟩
  obtain ⟨hone, -⟩ := hbonded (by decide) (by rw [hsame]; decide)
  have htwo := hothers 0 0 (by decide) (by decide)
  rw [hsame] at hone htwo
  exact ⟨_, s', r₂, hsame ▸ hlists 0, hcall, lists' 0, hlists' 0, Nat.succ.inj hone, htwo⟩

end Ak24.AtomSymmetry
