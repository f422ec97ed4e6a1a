import Ak24.FilepathCanonical

namespace Ak24.FilepathJoin

open FilepathModel FilepathNormalize FilepathCanonical PathResolve PathJoin

variable {alloc : Nat → Bool}

/-- The component strings that are not `NULL` and not empty. -/
def present (components : List (Option Name)) : List Name := (components.filterMap id).filter (· ≠ [])

section Join

theorem present_append (xs ys : List (Option Name)) : present (xs ++ ys) = present xs ++ present ys := by
  rw [present, List.filterMap_append, List.filter_append]
  rfl

theorem present_ne_nil {components : List (Option Name)} {x : Name} (h : x ∈ present components) : x ≠ [] := by
  simpa using (List.mem_filter.mp h).2

theorem present_some {x : Name} (hx : x ≠ []) : present [some x] = [x] := by simp [present, hx]

theorem joinComponent_data (halloc : ∀ n, alloc n = true) (result : Buffer) (component : Name) :
    (joinComponent alloc slash result (some component)).data = joinPath result.data component := by
  rw [joinComponent, joinPath]
  by_cases hc : component = []
  · by_cases hr : result.data = [] <;> simp [hc, hr]
  by_cases hr : result.data = []
  · simp [hr, hc, bufferAppendStr_data halloc]
  rw [if_neg hc, if_neg (by simpa using hr), if_neg hr, if_neg hc]
  -- the source tests the bytes by `is_separator`
  have hsep : ∀ o : Option UInt8, o.any isSeparator = decide (o = some slash) := by
    rintro (_ | c) <;> simp [isSeparator, slash, beq_eq_decide]
  simp only [hsep]
  by_cases hlast : result.data.getLast? = some slash <;> by_cases hfirst : component.head? = some slash <;>
    simp [hlast, hfirst, bufferAppendChar, bufferAppendStr_data halloc]

theorem foldl_joinComponent (halloc : ∀ n, alloc n = true) (components : List (Option Name)) (result : Buffer) :
    (components.foldl (joinComponent alloc slash) result).data =
      joinPath result.data (joinAll (present components)) := by
  induction components generalizing result with
  | nil => exact (joinPath_nil_right _).symm
  | cons component components ih =>
      rw [List.foldl_cons, ih]
      cases component with
      | none => rfl
      | some component =>
          rw [joinComponent_data halloc, joinPath_assoc]
          by_cases hc : component = []
          · subst hc
            rfl
          · have hpresent : present (some component :: components) = component :: present components := by
              simp [present, hc]
            rw [hpresent, joinAll_cons]

theorem akFilepathJoin_eq (halloc : ∀ n, alloc n = true) (components : List (Option Name)) :
    akFilepathJoin alloc (akFilepathInit zeroState) components = some (joinAll (present components)) := by
  have hfold := foldl_joinComponent halloc components ⟨[], 256⟩
  rw [joinPath_nil_left] at hfold
  rw [akFilepathJoin, if_neg (by decide), ← hfold]
  simp only [akBufferNew, halloc, if_true, bind, Option.bind]
  rfl

theorem joinAll_eq_nil {xs : List Name} (h : ∀ x ∈ xs, x ≠ []) : joinAll xs = [] ↔ xs = [] := by
  cases xs with
  | nil => simp [joinAll]
  | cons x xs => simp [joinAll_cons, joinPath_ne_nil (h x List.mem_cons_self)]

theorem joinAll_present_group (xs : List Name) (ys : List (Option Name)) (zs : List Name) :
    joinAll (xs ++ present [some (joinAll (present ys))] ++ zs) = joinAll (xs ++ present ys ++ zs) := by
  by_cases hnil : joinAll (present ys) = []
  · have hys : present ys = [] := (joinAll_eq_nil fun _ => present_ne_nil).mp hnil
    rw [hys]
    rfl
  · rw [present_some hnil, List.append_assoc, List.singleton_append, joinAll_group]

theorem joinAll_head? {xs : List Name} (h : ∀ x ∈ xs, x ≠ []) :
    (joinAll xs).head? = ([slash].intercalate xs).head? := by
  cases xs with
  | nil => rfl
  | cons x xs =>
      have hx := h x List.mem_cons_self
      rw [joinAll_cons, joinPath_head? hx]
      cases xs with
      | nil => simp
      | cons y ys =>
          have hcons : [slash].intercalate (x :: y :: ys) = x ++ slash :: [slash].intercalate (y :: ys) := by simp
          rw [hcons, List.head?_append_of_ne_nil x hx]

end Join

theorem akFilepathNormalize_congr (halloc : ∀ n, alloc n = true) {p q : Name}
    (hhead : p.head? = some slash ↔ q.head? = some slash) (hwalk : walk [] (parts p) = walk [] (parts q)) :
    akFilepathNormalize alloc (akFilepathInit zeroState) p =
      akFilepathNormalize alloc (akFilepathInit zeroState) q := by
  have habs : akFilepathIsAbsolute p = akFilepathIsAbsolute q := by
    rw [akFilepathIsAbsolute, akFilepathIsAbsolute, Bool.eq_iff_iff, beq_iff_eq, beq_iff_eq]
    exact hhead
  rw [akFilepathNormalize_render halloc, akFilepathNormalize_render halloc, habs, hwalk]

/-- A group of components may be joined first; absent and empty components make
no difference; and a join normalises to what its components with slashes between
them do, which are their names, walked. -/
theorem akFilepathJoin_concat (alloc : Nat → Bool) (halloc : ∀ n, alloc n = true) (xs ys zs : List (Option Name)) :
    ∃ group all,
      akFilepathJoin alloc (akFilepathInit zeroState) ys = some group ∧
      akFilepathJoin alloc (akFilepathInit zeroState) (xs ++ ys ++ zs) = some all ∧
      akFilepathJoin alloc (akFilepathInit zeroState) (xs ++ [some group] ++ zs) = some all ∧
      akFilepathJoin alloc (akFilepathInit zeroState) ((present (xs ++ ys ++ zs)).map some) = some all ∧
      all = joinAll (present (xs ++ ys ++ zs)) ∧
      akFilepathNormalize alloc (akFilepathInit zeroState) all =
        akFilepathNormalize alloc (akFilepathInit zeroState) ([slash].intercalate (present (xs ++ ys ++ zs))) ∧
      akFilepathNormalize alloc (akFilepathInit zeroState) all =
        some (render (akFilepathIsAbsolute all) ((walk [] (parts all)).map cut)) := by
  refine ⟨_, _, akFilepathJoin_eq halloc ys, akFilepathJoin_eq halloc (xs ++ ys ++ zs), ?_, ?_, rfl, ?_,
    akFilepathNormalize_render halloc _⟩
  · rw [akFilepathJoin_eq halloc, present_append, present_append, joinAll_present_group, present_append,
      present_append]
  · rw [akFilepathJoin_eq halloc]
    congr 2
    simp [present]
  · apply akFilepathNormalize_congr halloc
    · rw [joinAll_head? fun _ => present_ne_nil]
    · rw [parts_joinAll, parts_intercalate]

theorem akFilepathJoin_concat_slashes : ∃ group all,
    akFilepathJoin (fun _ => true) (akFilepathInit zeroState) [some [47], none] = some group ∧
      akFilepathJoin (fun _ => true) (akFilepathInit zeroState) ([some [97]] ++ [some [47], none] ++ [some [98]]) =
        some all ∧ all = [97, 47, 98] := by
  obtain ⟨group, all, hgroup, hall, -⟩ := akFilepathJoin_concat (fun _ => true) (fun _ => rfl) [some [97]]
    [some [47], none] [some [98]]
  refine ⟨group, all, hgroup, hall, ?_⟩
  exact Option.some.inj (hall.symm.trans (by decide))

section Split

theorem lastSep_append (u v : Name) (i : Nat) (last : Option Nat) :
    lastSep (u ++ v) i last = lastSep v (i + u.length) (lastSep u i last) := by
  induction u generalizing i last with
  | nil => rfl
  | cons c u ih =>
      rw [List.cons_append, lastSep, ih, lastSep, List.length_cons, Nat.add_right_comm, Nat.add_assoc]

theorem lastSep_of_notMem {v : Name} (h : slash ∉ v) (i : Nat) (last : Option Nat) : lastSep v i last = last := by
  induction v generalizing i last with
  | nil => rfl
  | cons c v ih =>
      obtain ⟨hc, hv⟩ := not_or.mp (mt List.mem_cons.mpr h)
      rw [lastSep, ih hv, if_neg (by simpa [isSeparator, slash] using Ne.symm hc)]

theorem lastSep_eq {u v : Name} (h : slash ∉ v) : lastSep (u ++ slash :: v) 0 none = some u.length := by
  rw [lastSep_append, lastSep, lastSep_of_notMem h, Nat.zero_add]
  rfl

theorem slash_cases (p : Name) : slash ∉ p ∨ ∃ u v, p = u ++ slash :: v ∧ slash ∉ v := by
  induction p with
  | nil => exact .inl List.not_mem_nil
  | cons c p ih =>
      rcases ih with hp | ⟨u, v, rfl, hv⟩
      · by_cases hc : c = slash
        · exact .inr ⟨[], p, by rw [hc, List.nil_append], hp⟩
        · exact .inl (by simp [Ne.symm hc, hp])
      · exact .inr ⟨c :: u, v, rfl, hv⟩

theorem bufferFromStr_eq (halloc : ∀ n, alloc n = true) (str : Name) : bufferFromStr alloc str = some str := by
  simp [bufferFromStr, akBufferNew, halloc]

theorem guard {p : Name} (hp : p ≠ []) : ¬(!(akFilepathInit zeroState).initialized || decide (p = [])) = true := by
  simp [hp, akFilepathInit, zeroState]

variable (halloc : ∀ n, alloc n = true)
include halloc

theorem split_of_notMem {p : Name} (hp : p ≠ []) (h : slash ∉ p) :
    akFilepathDirname alloc (akFilepathInit zeroState) p = some dot ∧
      akFilepathBasename alloc (akFilepathInit zeroState) p = some p := by
  rw [akFilepathDirname, akFilepathBasename, if_neg (guard hp), if_neg (guard hp), lastSep_of_notMem h]
  exact ⟨bufferFromStr_eq halloc dot, bufferFromStr_eq halloc p⟩

theorem split_of_last (u : Name) {v : Name} (h : slash ∉ v) :
    akFilepathDirname alloc (akFilepathInit zeroState) (u ++ slash :: v) = some (if u = [] then [slash] else u) ∧
      akFilepathBasename alloc (akFilepathInit zeroState) (u ++ slash :: v) = some v := by
  have hne : u ++ slash :: v ≠ [] := by simp
  rw [akFilepathDirname, akFilepathBasename, if_neg (guard hne), if_neg (guard hne), lastSep_eq h]
  constructor
  · by_cases hu : u = []
    · subst hu
      exact bufferFromStr_eq halloc [slash]
    · simp [hu, bufferFromStr_eq halloc]
  · simp [bufferFromStr_eq halloc]

end Split

/-- The name is what stands behind the last slash, and the directory what stands
before it. -/
def SplitAt (p dir base : Name) : Prop :=
  (slash ∉ p ∧ dir = dot ∧ base = p) ∨
    ∃ u, slash ∉ base ∧ p = u ++ slash :: base ∧ dir = if u = [] then [slash] else u

/-- The directory and the name of a path, joined, normalise to what the path
does. -/
theorem dirname_basename_recompose (alloc : Nat → Bool) (halloc : ∀ n, alloc n = true) (p : Name) (hp : p ≠ []) :
    ∃ dir base joined out,
      akFilepathDirname alloc (akFilepathInit zeroState) p = some dir ∧
      akFilepathBasename alloc (akFilepathInit zeroState) p = some base ∧
      akFilepathJoin alloc (akFilepathInit zeroState) [some dir, some base] = some joined ∧
      akFilepathNormalize alloc (akFilepathInit zeroState) joined = some out ∧
      akFilepathNormalize alloc (akFilepathInit zeroState) p = some out ∧
      out = render (akFilepathIsAbsolute p) ((walk [] (parts p)).map cut) ∧ SplitAt p dir base := by
  have hjoin : ∀ dir base : Name, dir ≠ [] →
      akFilepathJoin alloc (akFilepathInit zeroState) [some dir, some base] = some (joinPath dir base) := by
    intro dir base hdir
    rw [akFilepathJoin_eq halloc]
    by_cases hbase : base = [] <;> simp [present, hdir, hbase, joinAll]
  have hout := akFilepathNormalize_render halloc p
  rcases slash_cases p with hs | ⟨u, v, rfl, hv⟩
  · obtain ⟨hdir, hbase⟩ := split_of_notMem halloc hp hs
    refine ⟨_, _, _, _, hdir, hbase, hjoin _ _ (by decide), ?_, hout, rfl, .inl ⟨hs, rfl, rfl⟩⟩
    rw [← hout]
    -- "." before a relative path
    apply akFilepathNormalize_congr halloc
    · rw [joinPath_head? (by decide)]
      exact ⟨fun h => absurd h (by decide), fun h => absurd (List.mem_of_head? h) hs⟩
    · rw [parts_joinPath]
      rfl
  · obtain ⟨hdir, hbase⟩ := split_of_last halloc u hv
    have hne : (if u = [] then [slash] else u) ≠ [] := by split_ifs with hu <;> simp [hu]
    refine ⟨_, _, _, _, hdir, hbase, hjoin _ _ hne, ?_, hout, rfl, .inr ⟨u, hv, rfl, rfl⟩⟩
    rw [← hout]
    apply akFilepathNormalize_congr halloc
    · rw [joinPath_head? hne]
      split_ifs with hu
      · simp [hu]
      · rw [List.head?_append_of_ne_nil u hu]
    · rw [parts_joinPath, parts_append]
      split_ifs with hu
      · rw [hu]
        rfl
      · rfl

theorem dirname_basename_recompose_trailing : ∃ dir base joined out,
    akFilepathDirname (fun _ => true) (akFilepathInit zeroState) [97, 47, 47] = some dir ∧
      akFilepathBasename (fun _ => true) (akFilepathInit zeroState) [97, 47, 47] = some base ∧
      akFilepathJoin (fun _ => true) (akFilepathInit zeroState) [some dir, some base] = some joined ∧
      akFilepathNormalize (fun _ => true) (akFilepathInit zeroState) joined = some out ∧
      akFilepathNormalize (fun _ => true) (akFilepathInit zeroState) [97, 47, 47] = some out ∧ out = [97] := by
  obtain ⟨dir, base, joined, out, hdir, hbase, hjoin, hjoined, hout, -⟩ :=
    dirname_basename_recompose (fun _ => true) (fun _ => rfl) [97, 47, 47] (by decide)
  exact ⟨dir, base, joined, out, hdir, hbase, hjoin, hjoined, hout, Option.some.inj (hout.symm.trans (by decide))⟩

end Ak24.FilepathJoin
