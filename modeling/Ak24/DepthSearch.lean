import Ak24.GraphLevels

namespace Ak24.DepthSearch

open GraphLevels

variable {α : Type} [DecidableEq α]

def record (capacity : Nat) (visited : List α) (x : α) : List α :=
  if visited.length < capacity then visited ++ [x] else visited

/-- A search to a fixed depth that enters no vertex of a table twice, and collects
those at the end of the depth. A table that is full takes no more. -/
def search (lists : α → List α) (capacity : Nat) : Nat → α → List α × List α → List α × List α
  | 0, x, (visited, found) =>
    if x ∈ visited then (visited, found) else (record capacity visited x, found ++ [x])
  | left + 1, x, (visited, found) =>
    if x ∈ visited then (visited, found)
    else (lists x).foldl (fun st n => search lists capacity left n st) (record capacity visited x, found)

section Search

variable {lists : α → List α} {capacity left : Nat} {x : α} {visited found : List α}

theorem search_of_mem (hx : x ∈ visited) : search lists capacity left x (visited, found) = (visited, found) := by
  cases left <;> rw [search, if_pos hx]

theorem search_zero (hx : x ∉ visited) :
    search lists capacity 0 x (visited, found) = (record capacity visited x, found ++ [x]) := by
  rw [search, if_neg hx]

theorem search_succ (hx : x ∉ visited) :
    search lists capacity (left + 1) x (visited, found) =
      (lists x).foldl (fun st n => search lists capacity left n st) (record capacity visited x, found) := by
  rw [search, if_neg hx]

omit [DecidableEq α] in
theorem mem_record {y : α} (hy : y ∈ record capacity visited x) : y ∈ visited ∨ y = x := by
  rw [record] at hy
  split at hy
  · simpa using hy
  · exact .inl hy

omit [DecidableEq α] in
theorem subset_foldl {f : List α × List α → α → List α × List α} (hf : ∀ st n, st.2 ⊆ (f st n).2) (l : List α)
    (st : List α × List α) : st.2 ⊆ (l.foldl f st).2 := by
  induction l generalizing st with
  | nil => exact List.Subset.refl _
  | cons n l ih => exact List.Subset.trans (hf st n) (ih _)

theorem found_subset (lists : α → List α) (capacity left : Nat) (st : List α × List α) (x : α) :
    st.2 ⊆ (search lists capacity left x st).2 := by
  induction left generalizing x st with
  | zero =>
      by_cases hx : x ∈ st.1
      · rw [search_of_mem hx]
        exact List.Subset.refl _
      · rw [search_zero hx]
        exact List.subset_append_left _ _
  | succ left ih =>
      by_cases hx : x ∈ st.1
      · rw [search_of_mem hx]
        exact List.Subset.refl _
      · rw [search_succ hx]
        exact subset_foldl ih (lists x) (record capacity st.1 x, st.2)

end Search

section Levels

variable {lists : α → List α} {G : SimpleGraph α} {capacity left j d : Nat} {a x : α}

structure Explores (G : SimpleGraph α) (a : α) (d : Nat) (st st' : List α × List α) (new : List α) : Prop where
  visited : st'.1 = st.1 ++ new
  found : st'.2 = st.2 ++ new.filter fun y => G.edist a y = d
  nodup : st'.1.Nodup
  within : ∀ y ∈ st'.1, G.edist a y ≤ d
  closed : ∀ y ∈ new, G.edist a y < d → ∀ n, G.Adj y n → n ∈ st'.1

omit [DecidableEq α] in
theorem Explores.refl {st : List α × List α} (hnodup : st.1.Nodup) (hwithin : ∀ y ∈ st.1, G.edist a y ≤ d) :
    Explores G a d st st [] :=
  ⟨(List.append_nil _).symm, (List.append_nil _).symm, hnodup, hwithin, fun _ hy => absurd hy List.not_mem_nil⟩

omit [DecidableEq α] in
theorem Explores.trans {st st₁ st₂ : List α × List α} {new₁ new₂ : List α} (h₁ : Explores G a d st st₁ new₁)
    (h₂ : Explores G a d st₁ st₂ new₂) : Explores G a d st st₂ (new₁ ++ new₂) := by
  refine ⟨?_, ?_, h₂.nodup, h₂.within, fun y hy hlt n hn => ?_⟩
  · rw [h₂.visited, h₁.visited, List.append_assoc]
  · rw [h₂.found, h₁.found, List.append_assoc, List.filter_append]
  · rcases List.mem_append.mp hy with hy | hy
    · rw [h₂.visited]
      exact List.mem_append_left _ (h₁.closed y hy hlt n hn)
    · exact h₂.closed y hy hlt n hn

omit [DecidableEq α] in
theorem foldl_explores {f : List α × List α → α → List α × List α} {base l : List α} (st : List α × List α)
    (hf : ∀ st, base ⊆ st.1 → st.1.Nodup → (∀ y ∈ st.1, G.edist a y ≤ d) → ∀ n ∈ l,
      ∃ new, Explores G a d st (f st n) new ∧ n ∈ (f st n).1)
    (hbase : base ⊆ st.1) (hnodup : st.1.Nodup) (hwithin : ∀ y ∈ st.1, G.edist a y ≤ d) :
    ∃ new, Explores G a d st (l.foldl f st) new ∧ ∀ n ∈ l, n ∈ (l.foldl f st).1 := by
  induction l generalizing st with
  | nil => exact ⟨[], .refl hnodup hwithin, fun _ hn => absurd hn List.not_mem_nil⟩
  | cons n l ih =>
      obtain ⟨new₁, h₁, hn⟩ := hf st hbase hnodup hwithin n List.mem_cons_self
      have hkept : st.1 ⊆ (f st n).1 := by
        rw [h₁.visited]
        exact List.subset_append_left _ _
      obtain ⟨new₂, h₂, hl⟩ := ih (f st n)
        (fun st hbase hnodup hwithin m hm => hf st hbase hnodup hwithin m (List.mem_cons_of_mem n hm))
        (List.Subset.trans hbase hkept) h₁.nodup h₁.within
      refine ⟨new₁ ++ new₂, h₁.trans h₂, fun m hm => ?_⟩
      rcases List.mem_cons.mp hm with rfl | hm
      · rw [List.foldl_cons, h₂.visited]
        exact List.mem_append_left _ hn
      · exact hl m hm

theorem length_lt_capacity {visited : List α} (hcapacity : {y | G.edist a y ≤ d}.encard ≤ capacity)
    (hnodup : visited.Nodup) (hwithin : ∀ y ∈ visited, G.edist a y ≤ d) (hx : x ∉ visited) (hlevel : G.edist a x ≤ d) :
    visited.length < capacity := by
  have hsub : (((x :: visited).toFinset : Finset α) : Set α) ⊆ {y | G.edist a y ≤ d} := by
    intro y hy
    rcases List.mem_cons.mp (List.mem_toFinset.mp hy) with rfl | hy
    · exact hlevel
    · exact hwithin y hy
  have hcard := (Set.encard_le_encard hsub).trans hcapacity
  rw [Set.encard_coe_eq_coe_finsetCard, List.toFinset_card_of_nodup (List.nodup_cons.mpr ⟨hx, hnodup⟩),
    List.length_cons] at hcard
  exact_mod_cast hcard

omit [DecidableEq α] in
theorem nodup_concat {visited : List α} (hnodup : visited.Nodup) (hx : x ∉ visited) : (visited ++ [x]).Nodup := by
  rw [← List.concat_eq_append]
  exact hnodup.concat hx

omit [DecidableEq α] in
theorem within_concat {visited : List α} (hwithin : ∀ y ∈ visited, G.edist a y ≤ d) (hx : G.edist a x ≤ d) :
    ∀ y ∈ visited ++ [x], G.edist a y ≤ d := by
  intro y hy
  rcases List.mem_append.mp hy with hy | hy
  · exact hwithin y hy
  · rwa [List.mem_singleton.mp hy]

omit [DecidableEq α] in
theorem Explores.leaf {st : List α × List α} (hnodup : st.1.Nodup) (hwithin : ∀ y ∈ st.1, G.edist a y ≤ d)
    (hx : x ∉ st.1) (hlevel : G.edist a x = d) : Explores G a d st (st.1 ++ [x], st.2 ++ [x]) [x] := by
  refine ⟨rfl, by simp [hlevel], nodup_concat hnodup hx, within_concat hwithin hlevel.le, fun y hy hlt => ?_⟩
  rw [List.mem_singleton.mp hy, hlevel] at hlt
  exact absurd hlt (lt_irrefl _)

omit [DecidableEq α] in
theorem Explores.enter {st st' : List α × List α} {new : List α}
    (h : Explores G a d (st.1 ++ [x], st.2) st' new) (hlt : G.edist a x < d) (hall : ∀ n, G.Adj x n → n ∈ st'.1) :
    Explores G a d st st' (x :: new) := by
  refine ⟨?_, ?_, h.nodup, h.within, fun y hy hylt n hn => ?_⟩
  · rw [h.visited, List.append_assoc, List.singleton_append]
  · rw [h.found, List.filter_cons_of_neg (by simpa using hlt.ne)]
  · rcases List.mem_cons.mp hy with rfl | hy
    · exact hall n hn
    · exact h.closed y hy hylt n hn

/-- The search from a vertex whose neighbours that are not farther are all in the
table: there are no others to be met again on the way. -/
theorem search_thin (hlists : ∀ x y, G.Adj x y ↔ x ≠ y ∧ y ∈ lists x) (hthin : Thin G a d)
    (hcapacity : {y | G.edist a y ≤ d}.encard ≤ capacity) {st : List α × List α} (hj : j + left = d)
    (hx : G.edist a x = j) (hnodup : st.1.Nodup) (hwithin : ∀ y ∈ st.1, G.edist a y ≤ d)
    (hback : left ≠ 0 → ∀ n, G.Adj x n → G.edist a n ≤ j → n ∈ st.1) :
    ∃ new, Explores G a d st (search lists capacity left x st) new ∧ x ∈ (search lists capacity left x st).1 := by
  induction left generalizing j x st with
  | zero =>
      by_cases hmem : x ∈ st.1
      · rw [search_of_mem hmem]
        exact ⟨[], .refl hnodup hwithin, hmem⟩
      · have hlevel : G.edist a x = d := by rw [hx, ← hj, Nat.add_zero]
        have hroom := length_lt_capacity hcapacity hnodup hwithin hmem hlevel.le
        rw [search_zero hmem, record, if_pos hroom]
        exact ⟨[x], .leaf hnodup hwithin hmem hlevel, by simp⟩
  | succ left ih =>
      by_cases hmem : x ∈ st.1
      · rw [search_of_mem hmem]
        exact ⟨[], .refl hnodup hwithin, hmem⟩
      · have hlt : G.edist a x < d := by
          rw [hx]
          exact_mod_cast (by omega : j < d)
        have hroom := length_lt_capacity hcapacity hnodup hwithin hmem hlt.le
        rw [search_succ hmem, record, if_pos hroom]
        have hstep : ∀ st' : List α × List α, st.1 ++ [x] ⊆ st'.1 → st'.1.Nodup → (∀ y ∈ st'.1, G.edist a y ≤ d) →
            ∀ n ∈ lists x, ∃ new, Explores G a d st' (search lists capacity left n st') new ∧
              n ∈ (search lists capacity left n st').1 := by
          intro st' hbase hnodup' hwithin' n hn
          by_cases hn' : n ∈ st'.1
          · rw [search_of_mem hn']
            exact ⟨[], .refl hnodup' hwithin', hn'⟩
          · have hxst : x ∈ st'.1 := hbase (by simp)
            have hadj : G.Adj x n := (hlists x n).mpr ⟨fun hxn => hn' (hxn ▸ hxst), hn⟩
            -- the neighbours that are not farther are in the table
            have hfarther : ¬G.edist a n ≤ j := fun hle =>
              hn' (hbase (List.mem_append_left _ (hback (by simp) n hadj hle)))
            have hlevel := edist_of_farther hadj hx hfarther
            refine ih (by omega) hlevel hnodup' hwithin' fun hleft m hm hle => ?_
            obtain ⟨p, hp⟩ := hthin (j + 1) (Nat.succ_pos j) (by omega) n hlevel
            have hxle : G.edist a x ≤ (j + 1 : Nat) := by
              rw [hx]
              exact_mod_cast Nat.le_succ j
            rw [hp m hm hle, ← hp x hadj.symm hxle]
            exact hxst
        obtain ⟨new, hnew, hall⟩ := foldl_explores (st.1 ++ [x], st.2) hstep (List.Subset.refl _)
          (nodup_concat hnodup hmem) (within_concat hwithin hlt.le)
        refine ⟨x :: new, hnew.enter hlt fun n hn => hall n ((hlists x n).mp hn).2, ?_⟩
        rw [hnew.visited]
        simp

/-- The whole search finds the vertices at its depth, each of them once. -/
theorem search_exact (hlists : ∀ x y, G.Adj x y ↔ x ≠ y ∧ y ∈ lists x) (hthin : Thin G a d)
    (hcapacity : {y | G.edist a y ≤ d}.encard ≤ capacity) :
    (search lists capacity d a ([], [])).2.Nodup ∧
      ∀ x, x ∈ (search lists capacity d a ([], [])).2 ↔ G.edist a x = d := by
  have hself : G.edist a a = (0 : Nat) := SimpleGraph.edist_self
  have hback : d ≠ 0 → ∀ n, G.Adj a n → G.edist a n ≤ (0 : Nat) → n ∈ ([], ([] : List α)).1 := by
    intro _ n hn hle
    rw [Nat.cast_zero, nonpos_iff_eq_zero, SimpleGraph.edist_eq_zero_iff] at hle
    exact absurd hle hn.ne
  obtain ⟨new, hnew, ha⟩ := search_thin hlists hthin hcapacity (Nat.zero_add d) hself List.nodup_nil (by simp) hback
  have hvisited := hnew.visited
  rw [List.nil_append] at hvisited
  have hreached : ∀ x, G.edist a x = d → x ∈ new := by
    intro x hx
    refine mem_of_level (s := {y | y ∈ new}) (hvisited ▸ ha) (fun y hy j hj hlevel z hadj _ => ?_) le_rfl hx
    rw [Set.mem_ofPred, ← hvisited]
    refine hnew.closed y hy ?_ z hadj
    rw [hlevel]
    exact_mod_cast hj
  have hfound : (search lists capacity d a ([], [])).2 = new.filter fun y => G.edist a y = d := by
    rw [hnew.found, List.nil_append]
  rw [hfound]
  refine ⟨(hvisited ▸ hnew.nodup).filter _, fun x => ?_⟩
  rw [List.mem_filter, decide_eq_true_iff]
  exact ⟨fun h => h.2, fun h => ⟨hreached x h, h⟩⟩

def Closed (G : SimpleGraph α) (a : α) (k : Nat) (entered : Set α) (y : α) : Prop :=
  ∀ n, G.Adj y n → G.edist a n ≤ k → n ∈ entered

/-- The table has vertices that were entered, and all of them while it has room. -/
def Recorded (capacity : Nat) (visited : List α) (entered : Set α) : Prop :=
  (∀ y ∈ visited, y ∈ entered) ∧ (visited.length < capacity → ∀ y ∈ entered, y ∈ visited)

/-- What a search has entered of the vertices at most `k` far: they are closed, and
those that are `k` far have one neighbour that is not farther. -/
structure Enters (G : SimpleGraph α) (a : α) (k : Nat) (entered entered' : Set α) : Prop where
  subset : entered ⊆ entered'
  closed : ∀ y ∈ entered', y ∉ entered → G.edist a y ≤ k → Closed G a k entered' y
  thin : ∀ y ∈ entered', y ∉ entered → G.edist a y = k → ∃ p, ∀ n, G.Adj y n → G.edist a n ≤ k → n = p

omit [DecidableEq α] in
theorem Closed.mono {k : Nat} {entered entered' : Set α} {y : α} (h : Closed G a k entered y)
    (hsub : entered ⊆ entered') : Closed G a k entered' y :=
  fun n hn hle => hsub (h n hn hle)

omit [DecidableEq α] in
theorem Enters.refl {k : Nat} (entered : Set α) : Enters G a k entered entered :=
  ⟨subset_rfl, fun _ hy hnot => absurd hy hnot, fun _ hy hnot => absurd hy hnot⟩

omit [DecidableEq α] in
theorem Enters.trans {k : Nat} {e e₁ e₂ : Set α} (h₁ : Enters G a k e e₁) (h₂ : Enters G a k e₁ e₂) :
    Enters G a k e e₂ := by
  refine ⟨h₁.subset.trans h₂.subset, fun y hy hnot hle => ?_, fun y hy hnot hk => ?_⟩
  · by_cases hy₁ : y ∈ e₁
    · exact (h₁.closed y hy₁ hnot hle).mono h₂.subset
    · exact h₂.closed y hy hy₁ hle
  · by_cases hy₁ : y ∈ e₁
    · exact h₁.thin y hy₁ hnot hk
    · exact h₂.thin y hy hy₁ hk

omit [DecidableEq α] in
theorem Enters.leaf {k : Nat} (entered : Set α) (hx : ¬G.edist a x ≤ k) : Enters G a k entered (insert x entered) := by
  have hnew : ∀ y ∈ insert x entered, y ∉ entered → y = x := fun y hy hnot => hy.resolve_right hnot
  refine ⟨Set.subset_insert x entered, fun y hy hnot hle => ?_, fun y hy hnot hk => ?_⟩
  · exact absurd (hnew y hy hnot ▸ hle) hx
  · exact absurd (hnew y hy hnot ▸ hk.le) hx

omit [DecidableEq α] in
theorem Enters.enter {k : Nat} {entered e : Set α} (h : Enters G a k (insert x entered) e)
    (hclosed : Closed G a k e x)
    (hthin : G.edist a x = k → ∃ p, ∀ n, G.Adj x n → G.edist a n ≤ k → n = p) : Enters G a k entered e := by
  refine ⟨(Set.subset_insert x entered).trans h.subset, fun y hy hnot hle => ?_, fun y hy hnot hk => ?_⟩
  · by_cases hyx : y = x
    · exact hyx ▸ hclosed
    · exact h.closed y hy (fun hin => hin.elim hyx hnot) hle
  · by_cases hyx : y = x
    · subst y
      exact hthin hk
    · exact h.thin y hy (fun hin => hin.elim hyx hnot) hk

def Done (G : SimpleGraph α) (a : α) (k j : Nat) (c : Option α) (entered : Set α) : Prop :=
  ∀ y ∈ entered, ∀ i : Nat, G.edist a y = i → i ≤ k → j ≤ i + 1 → y ∉ c → Closed G a k entered y

omit [DecidableEq α] in
theorem Done.step {k : Nat} {c : Option α} {entered e : Set α} (h : Done G a k j c entered)
    (hc : ∀ p ∈ c, G.edist a p < j) (henters : Enters G a k (insert x entered) e) :
    Done G a k (j + 1) (some x) e := by
  intro y hy i hlevel hik hji hyc
  by_cases hbase : y ∈ insert x entered
  · have hyx : y ≠ x := fun hyx => hyc (Option.mem_some_iff.mpr hyx.symm)
    have hyc' : y ∉ c := by
      intro hmem
      have hlt := hc y hmem
      rw [hlevel] at hlt
      have hlt' : i < j := by exact_mod_cast hlt
      omega
    exact (h y (hbase.resolve_left hyx) i hlevel hik (by omega) hyc').mono
      ((Set.subset_insert x entered).trans henters.subset)
  · exact henters.closed y hy hbase (by rw [hlevel]; exact_mod_cast hik)

omit [DecidableEq α] in
theorem Recorded.enter {visited : List α} {entered : Set α} (h : Recorded capacity visited entered) (x : α) :
    Recorded capacity (record capacity visited x) (insert x entered) := by
  refine ⟨fun y hy => ?_, fun hroom y hy => ?_⟩
  · rcases mem_record hy with hy | rfl
    · exact .inr (h.1 y hy)
    · exact .inl rfl
  · rw [record] at hroom ⊢
    split at hroom
    · rename_i hlt
      rw [if_pos hlt]
      rcases hy with rfl | hy
      · simp
      · exact List.mem_append_left _ (h.2 hlt y hy)
    · rename_i hfull
      exact absurd hroom hfull

omit [DecidableEq α] in
theorem foldl_enters {f : List α × List α → α → List α × List α} {k : Nat} {base : Set α} {l : List α}
    (hmono : ∀ st n, st.2 ⊆ (f st n).2)
    (hf : ∀ st entered, Recorded capacity st.1 entered → Enters G a k base entered → ∀ n ∈ l,
      (∀ y ∈ (f st n).2, G.edist a y = (k + 1 : Nat)) →
      ∃ entered', Recorded capacity (f st n).1 entered' ∧ Enters G a k entered entered' ∧ n ∈ entered')
    (st : List α × List α) (entered : Set α) (hrec : Recorded capacity st.1 entered)
    (henters : Enters G a k base entered) (hclean : ∀ y ∈ (l.foldl f st).2, G.edist a y = (k + 1 : Nat)) :
    ∃ entered', Recorded capacity (l.foldl f st).1 entered' ∧ Enters G a k base entered' ∧ entered ⊆ entered' ∧
      ∀ n ∈ l, n ∈ entered' := by
  induction l generalizing st entered with
  | nil => exact ⟨entered, hrec, henters, subset_rfl, fun _ hn => absurd hn List.not_mem_nil⟩
  | cons n l ih =>
      have hfirst : ∀ y ∈ (f st n).2, G.edist a y = (k + 1 : Nat) :=
        fun y hy => hclean y (subset_foldl hmono l (f st n) hy)
      obtain ⟨entered₁, hrec₁, henters₁, hn⟩ := hf st entered hrec henters n List.mem_cons_self hfirst
      obtain ⟨entered₂, hrec₂, henters₂, hsub, hl⟩ :=
        ih (fun st e hr he m hm => hf st e hr he m (List.mem_cons_of_mem n hm)) (f st n) entered₁ hrec₁
          (henters.trans henters₁) hclean
      refine ⟨entered₂, hrec₂, henters₂, henters₁.subset.trans hsub, fun m hm => ?_⟩
      rcases List.mem_cons.mp hm with rfl | hm
      · exact hsub hn
      · exact hl m hm

theorem mem_of_foldl_zero {k : Nat} {l : List α} (st : List α × List α)
    (hclean : ∀ y ∈ (l.foldl (fun st n => search lists capacity 0 n st) st).2, G.edist a y = (k + 1 : Nat)) :
    ∀ n ∈ l, G.edist a n ≤ k → n ∈ st.1 := by
  induction l generalizing st with
  | nil => exact fun _ hn => absurd hn List.not_mem_nil
  | cons m l ih =>
      intro n hn hle
      rw [List.foldl_cons] at hclean
      by_cases hm : m ∈ st.1
      · rw [search_of_mem hm] at hclean
        rcases List.mem_cons.mp hn with rfl | hn
        · exact hm
        · exact ih st hclean n hn hle
      · have hlevel : G.edist a m = (k + 1 : Nat) := by
          refine hclean m (subset_foldl (fun st n => found_subset lists capacity 0 st n) l _ ?_)
          rw [search_zero hm]
          simp
        have hmn : n ≠ m := by
          rintro rfl
          rw [hlevel] at hle
          exact absurd hle (by exact_mod_cast Nat.not_succ_le_self k)
        have hn' := ih _ hclean n ((List.mem_cons.mp hn).resolve_left hmn) hle
        rw [search_zero hm] at hn'
        exact (mem_record hn').resolve_right hmn

theorem thin_of_foldl_zero (hlists : ∀ x y, G.Adj x y ↔ x ≠ y ∧ y ∈ lists x) {k : Nat} {c : Option α}
    {st : List α × List α} {entered : Set α} (hrec : Recorded capacity st.1 entered) (hdone : Done G a k k c entered)
    (hx : G.edist a x = k) (hnot : x ∉ entered)
    (hclean : ∀ y ∈ ((lists x).foldl (fun st n => search lists capacity 0 n st) (record capacity st.1 x, st.2)).2,
      G.edist a y = (k + 1 : Nat)) : ∃ p, ∀ n, G.Adj x n → G.edist a n ≤ k → n = p := by
  refine ⟨c.getD x, fun n hn hle => ?_⟩
  have hin := mem_of_foldl_zero _ hclean n ((hlists x n).mp hn).2 hle
  have hold : n ∈ entered := hrec.1 n ((mem_record hin).resolve_right hn.ne')
  by_contra hnc
  have hnc' : n ∉ c := by
    intro hmem
    rw [Option.mem_def.mp hmem] at hnc
    exact hnc rfl
  obtain ⟨i, hi, hlevel⟩ := exists_level hle
  have hnear : k ≤ i + 1 := by
    have hsucc := edist_le_succ a hn.symm
    rw [hx, hlevel] at hsucc
    exact_mod_cast hsucc
  exact hnot (hdone n hold i hlevel hi hnear hnc' x hn.symm hx.le)

/-- The search from `x`, which was entered from `c`, where it finds nothing but
vertices at its depth. -/
theorem search_enters (hlists : ∀ x y, G.Adj x y ↔ x ≠ y ∧ y ∈ lists x) {k i : Nat} (hj : j + left = k + 1)
    (hx : G.edist a x = i) (hij : i ≤ j) {c : Option α} (hc : ∀ p ∈ c, G.edist a p < j)
    {st : List α × List α} {entered : Set α} (hrec : Recorded capacity st.1 entered) (hdone : Done G a k j c entered)
    (hclean : ∀ y ∈ (search lists capacity left x st).2, G.edist a y = (k + 1 : Nat)) :
    ∃ entered', Recorded capacity (search lists capacity left x st).1 entered' ∧ Enters G a k entered entered' ∧
      x ∈ entered' := by
  induction left generalizing j i x c st entered with
  | zero =>
      by_cases hmem : x ∈ st.1
      · rw [search_of_mem hmem]
        exact ⟨entered, hrec, .refl entered, hrec.1 x hmem⟩
      · rw [search_zero hmem] at hclean ⊢
        have hfar : ¬G.edist a x ≤ k := by
          rw [hclean x (by simp)]
          exact_mod_cast Nat.not_succ_le_self k
        exact ⟨insert x entered, hrec.enter x, .leaf entered hfar, .inl rfl⟩
  | succ left ih =>
      by_cases hmem : x ∈ st.1
      · rw [search_of_mem hmem]
        exact ⟨entered, hrec, .refl entered, hrec.1 x hmem⟩
      · rw [search_succ hmem] at hclean ⊢
        have hstep : ∀ st' e, Recorded capacity st'.1 e → Enters G a k (insert x entered) e → ∀ n ∈ lists x,
            (∀ y ∈ (search lists capacity left n st').2, G.edist a y = (k + 1 : Nat)) →
            ∃ e', Recorded capacity (search lists capacity left n st').1 e' ∧ Enters G a k e e' ∧ n ∈ e' := by
          intro st' e hrec' henters n hn hclean'
          obtain ⟨i', hi', hlevel⟩ : ∃ i' : Nat, i' ≤ i + 1 ∧ G.edist a n = i' := by
            apply exists_level
            by_cases hxn : x = n
            · rw [← hxn, hx]
              exact_mod_cast Nat.le_succ i
            · exact (edist_le_succ a ((hlists x n).mpr ⟨hxn, hn⟩)).trans_eq (by rw [hx]; rfl)
          have hc' : ∀ p ∈ some x, G.edist a p < (j + 1 : Nat) := by
            intro p hp
            rw [← Option.mem_some_iff.mp hp, hx]
            exact_mod_cast Nat.lt_succ_of_le hij
          exact ih (by omega) hlevel (by omega) hc' hrec' (hdone.step hc henters) hclean'
        obtain ⟨e, hrec', henters, hsub, hall⟩ := foldl_enters (fun st n => found_subset lists capacity left st n) hstep
          (record capacity st.1 x, st.2) (insert x entered) (hrec.enter x) (.refl _) hclean
        have hxe : x ∈ e := hsub (.inl rfl)
        by_cases hnot : x ∈ entered
        · rw [Set.insert_eq_of_mem hnot] at henters
          exact ⟨e, hrec', henters, hxe⟩
        · refine ⟨e, hrec', henters.enter (fun n hn _ => hall n ((hlists x n).mp hn).2) fun hk => ?_, hxe⟩
          -- `x` is `k` far, so the search is one step from its end
          have hik : i = k := by
            rw [hx] at hk
            exact_mod_cast hk
          obtain rfl : left = 0 := by omega
          obtain rfl : j = k := by omega
          exact thin_of_foldl_zero hlists hrec hdone hk hnot hclean

/-- Where the whole search finds nothing but vertices at its depth, those one step
nearer have one neighbour that is not farther, whatever the table holds. -/
theorem thin_of_search (hlists : ∀ x y, G.Adj x y ↔ x ≠ y ∧ y ∈ lists x) {k : Nat}
    (hclean : ∀ y ∈ (search lists capacity (k + 1) a ([], [])).2, G.edist a y = (k + 1 : Nat)) {y : α}
    (hy : G.edist a y = k) : ∃ p, ∀ n, G.Adj y n → G.edist a n ≤ k → n = p := by
  have hself : G.edist a a = (0 : Nat) := SimpleGraph.edist_self
  have hcaller : ∀ p ∈ (none : Option α), G.edist a p < (0 : Nat) := by simp
  have hrec : Recorded capacity ([] : List α) ∅ := ⟨by simp, by simp⟩
  obtain ⟨entered, -, henters, ha⟩ :=
    search_enters hlists (Nat.zero_add (k + 1)) hself le_rfl hcaller hrec (by simp [Done]) hclean
  have hreached : y ∈ entered := by
    refine mem_of_level ha (fun x hx j hj hlevel z hadj hz => ?_) le_rfl hy
    refine henters.closed x hx (Set.notMem_empty x) ?_ z hadj ?_
    · rw [hlevel]
      exact_mod_cast hj.le
    · rw [hz]
      exact_mod_cast hj
  exact henters.thin y hreached (Set.notMem_empty y) hy

end Levels

end Ak24.DepthSearch
