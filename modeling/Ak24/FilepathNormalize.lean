import Ak24.FilepathModel
import Ak24.PathResolve

namespace Ak24.FilepathNormalize

open FilepathModel PathResolve

variable {alloc : Nat → Bool}

def cut (name : Name) : Name := name.take (pathMax - 1)

section Parsing

theorem cut_eq_iff {name special : Name} (hs : special.length < pathMax - 1) : cut name = special ↔ name = special := by
  constructor
  · intro h
    have hlen := congrArg List.length h
    rw [cut, List.length_take] at hlen
    rw [cut, List.take_of_length_le (by omega)] at h
    exact h
  · rintro rfl
    exact List.take_of_length_le (by omega)

theorem cut_eq_self_iff {name : Name} : cut name = name ↔ name.length ≤ pathMax - 1 := List.take_eq_self_iff name

theorem enter_cut (dir : List Name) (name : Name) : enter (dir.map cut) (cut name) = (enter dir name).map cut := by
  have h0 : cut name = [] ↔ name = [] := cut_eq_iff (by decide)
  have h1 : cut name = dot ↔ name = dot := cut_eq_iff (by decide)
  have h2 : cut name = dotdot ↔ name = dotdot := cut_eq_iff (by decide)
  simp only [enter, h0, h1, h2]
  split_ifs
  · rfl
  · rw [List.map_dropLast]
  · rw [List.map_append, List.map_singleton]

theorem walk_cut (dir names : List Name) : walk (dir.map cut) (names.map cut) = (walk dir names).map cut := by
  induction names generalizing dir with
  | nil => rfl
  | cons name names ih =>
      have := ih (enter dir name)
      rw [← enter_cut] at this
      exact this

theorem handleComponent_enter (halloc : ∀ n, alloc n = true) (dir : List Name) (name : Name) :
    (if 0 < name.length then handleComponent alloc dir name else dir) = enter dir name := by
  by_cases h : name = []
  · simp [h, enter]
  rw [if_pos (List.length_pos_iff.mpr h), handleComponent]
  by_cases h1 : name = [46]
  · simp [h1, enter, dot]
  by_cases h2 : name = [46, 46]
  · cases dir <;> simp [h2, enter, dot, dotdot]
  · rw [if_neg h1, if_neg h2, if_pos (by simp [halloc]), enter_plain ⟨h, h1, h2⟩]

theorem cut_concat (name : Name) (c : UInt8) :
    cut (name ++ [c]) = if (cut name).length < pathMax - 1 then cut name ++ [c] else cut name := by
  rw [cut, cut, List.length_take]
  split_ifs with h
  · rw [List.take_of_length_le (by omega : name.length ≤ pathMax - 1),
      List.take_of_length_le (by simp; omega)]
  · rw [List.take_append_of_le_length (by omega)]

theorem parseByte_slash (halloc : ∀ n, alloc n = true) (dir : List Name) (pending : Name) :
    parseByte alloc ⟨dir, cut pending⟩ slash = ⟨enter dir (cut pending), cut []⟩ := by
  rw [parseByte, if_pos (show isSeparator slash = true from rfl), ← handleComponent_enter halloc]
  split_ifs with h
  · rfl
  · have hnil : cut pending = [] := by simpa using h
    rw [hnil]
    rfl

theorem parseByte_name {c : UInt8} (hc : c ≠ slash) (dir : List Name) (pending : Name) :
    parseByte alloc ⟨dir, cut pending⟩ c = ⟨dir, cut (pending ++ [c])⟩ := by
  rw [parseByte, if_neg (by simpa [isSeparator, slash] using hc), cut_concat]
  split_ifs <;> rfl

theorem parse_eq_walk (halloc : ∀ n, alloc n = true) (path : Name) (dir : List Name) (pending : Name) :
    parseEnd alloc (path.foldl (parseByte alloc) ⟨dir, cut pending⟩) =
      walk dir (((path.splitOn slash).modifyHead (pending ++ ·)).map cut) := by
  induction path generalizing dir pending with
  | nil =>
      rw [List.foldl_nil, parseEnd, handleComponent_enter halloc]
      simp [walk]
  | cons c path ih =>
      obtain ⟨first, rest, hs⟩ := List.exists_cons_of_ne_nil (List.splitOn_ne_nil slash path)
      rw [List.foldl_cons, List.splitOn_cons_eq_if_modifyHead]
      by_cases hc : c = slash
      · rw [hc, parseByte_slash halloc, ih]
        simp [hs, walk]
      · rw [parseByte_name hc, ih]
        simp [hs, hc]

end Parsing

section Output

theorem bufferAppendStr_data (halloc : ∀ n, alloc n = true) (buf : Buffer) (str : List UInt8) :
    (bufferAppendStr alloc buf str).data = buf.data ++ str := by
  rw [bufferAppendStr]
  simp only [halloc, if_true]
  split_ifs <;> rfl

theorem appendComponents_data (halloc : ∀ n, alloc n = true) (comps : List Name) (buf : Buffer) (first : Bool) :
    (appendComponents alloc slash buf first comps).data =
      buf.data ++ (if first ∨ comps = [] then [] else [slash]) ++ [slash].intercalate comps := by
  induction comps generalizing buf first with
  | nil => simp [appendComponents]
  | cons comp comps ih =>
      rw [appendComponents, ih, bufferAppendStr_data halloc]
      cases first with
      | true => cases comps <;> simp
      | false => cases comps <;> simp [bufferAppendChar, bufferAppendStr_data halloc]

def kept (path : Name) : List Name := (walk [] (path.splitOn slash)).map cut

theorem parse_eq_kept (halloc : ∀ n, alloc n = true) (path : Name) :
    parseEnd alloc (path.foldl (parseByte alloc) ⟨[], []⟩) = kept path := by
  have h := parse_eq_walk halloc path [] []
  obtain ⟨first, rest, hs⟩ := List.exists_cons_of_ne_nil (List.splitOn_ne_nil slash path)
  rw [kept, ← walk_cut]
  simpa [hs, show cut [] = [] from rfl] using h

theorem intercalate_eq_nil {names : List Name} (h : ∀ name ∈ names, Plain name) :
    [slash].intercalate names = [] ↔ names = [] := by
  cases names with
  | nil => simp
  | cons name names =>
      have := (h name (by simp)).1
      cases names <;> simp [this]

theorem kept_plain (path : Name) : ∀ name ∈ kept path, Plain name := by
  intro name hn
  obtain ⟨full, hf, rfl⟩ := List.mem_map.mp hn
  have hp := mem_walk (P := Plain) (by simp) (fun _ _ hp => hp) full hf
  exact ⟨fun h => hp.1 ((cut_eq_iff (by decide)).mp h), fun h => hp.2.1 ((cut_eq_iff (by decide)).mp h),
    fun h => hp.2.2 ((cut_eq_iff (by decide)).mp h)⟩

theorem kept_no_slash (path : Name) : ∀ name ∈ kept path, slash ∉ name := by
  intro name hn hs
  obtain ⟨full, hf, rfl⟩ := List.mem_map.mp hn
  refine mem_walk (P := fun name => slash ∉ name) (by simp) ?_ full hf (List.mem_of_mem_take hs)
  exact fun _ hm _ => slash_notMem_of_split hm

theorem akFilepathNormalize_eq (halloc : ∀ n, alloc n = true) (path : Name) :
    akFilepathNormalize alloc (akFilepathInit zeroState) path =
      some (if akFilepathIsAbsolute path then slash :: [slash].intercalate (kept path)
        else if kept path = [] then dot else [slash].intercalate (kept path)) := by
  have happend := fun buf => appendComponents_data halloc (kept path) buf true
  simp only [true_or, if_true, List.append_nil] at happend
  have hsep : (akFilepathInit zeroState).separator = slash := rfl
  rw [akFilepathNormalize, if_neg (by decide), hsep, parse_eq_kept halloc]
  simp only [akBufferNew, halloc, if_true, bind, Option.bind, Option.some.injEq]
  cases akFilepathIsAbsolute path with
  | true => simp [happend, bufferAppendChar, bufferAppendStr_data halloc]
  | false =>
      simp only [happend, intercalate_eq_nil (kept_plain path), List.nil_append, List.length_eq_zero_iff,
        Bool.not_false, and_true, Bool.false_eq_true, if_false]
      split_ifs with h
      · rw [bufferAppendStr_data halloc, happend, h]
        rfl
      · simp [happend]

end Output

section Meaning

variable (base : List Name) (path : Name)

theorem resolve_normalized :
    resolve base (if akFilepathIsAbsolute path then slash :: [slash].intercalate (kept path)
        else if kept path = [] then dot else [slash].intercalate (kept path)) =
      (if akFilepathIsAbsolute path then [] else base) ++ kept path := by
  split_ifs with ha hk
  · rw [resolve_absolute (kept_plain path) (kept_no_slash path), List.nil_append]
  · rw [hk, resolve_dot, List.append_nil]
  · rw [resolve_relative (kept_plain path) (kept_no_slash path) hk]

theorem resolve_path :
    resolve base path =
      if akFilepathIsAbsolute path then walk [] (path.splitOn slash)
      else base.take (base.length - climbs 0 (path.splitOn slash)) ++ walk [] (path.splitOn slash) := by
  have h := walk_append base [] (path.splitOn slash)
  rw [List.append_nil, List.length_nil] at h
  rw [resolve]
  by_cases ha : path.head? = some slash
  · rw [if_pos ha, if_pos (by simpa [akFilepathIsAbsolute, slash] using ha)]
  · rw [if_neg ha, if_neg (by simpa [akFilepathIsAbsolute, slash] using ha), h]

end Meaning

/-- Normalising keeps what a path resolves to exactly when the path is absolute
or never goes above its start, and no name that survives is longer than the
component buffer holds. -/
theorem akFilepathNormalize_resolve_iff (alloc : Nat → Bool) (halloc : ∀ n, alloc n = true) (path : Name)
    (base : List Name) (hbase : climbs 0 (path.splitOn slash) ≤ base.length) :
    ∃ out, akFilepathNormalize alloc (akFilepathInit zeroState) path = some out ∧
      (resolve base out = resolve base path ↔
        (akFilepathIsAbsolute path = true ∨ climbs 0 (path.splitOn slash) = 0) ∧
          ∀ name ∈ walk [] (path.splitOn slash), name.length ≤ pathMax - 1) := by
  refine ⟨_, akFilepathNormalize_eq halloc path, ?_⟩
  have hcut : kept path = walk [] (path.splitOn slash) ↔
      ∀ name ∈ walk [] (path.splitOn slash), name.length ≤ pathMax - 1 := by
    rw [kept]
    nth_rewrite 2 [← List.map_id (walk [] (path.splitOn slash))]
    rw [List.map_inj_left]
    exact forall₂_congr fun name _ => cut_eq_self_iff
  have hlen : (kept path).length = (walk [] (path.splitOn slash)).length := List.length_map ..
  rw [resolve_normalized, resolve_path, ← hcut]
  cases akFilepathIsAbsolute path with
  | true => simp
  | false =>
      simp only [Bool.false_eq_true, if_false, false_or]
      constructor
      · intro h
        have hl := congrArg List.length h
        rw [List.length_append, List.length_append, List.length_take, hlen] at hl
        have hzero : climbs 0 (path.splitOn slash) = 0 := by omega
        rw [hzero, Nat.sub_zero, List.take_length] at h
        exact ⟨hzero, List.append_cancel_left h⟩
      · rintro ⟨hzero, hk⟩
        rw [hzero, Nat.sub_zero, List.take_length, hk]

theorem akFilepathNormalize_resolve_iff_inner_parent :
    ∃ out, akFilepathNormalize (fun _ => true) (akFilepathInit zeroState) [97, 47, 46, 46, 47, 98] = some out ∧
      resolve [[120]] out = resolve [[120]] [97, 47, 46, 46, 47, 98] := by
  obtain ⟨out, hout, h⟩ := akFilepathNormalize_resolve_iff (fun _ => true) (fun _ => rfl)
    [97, 47, 46, 46, 47, 98] [[120]] (by decide)
  exact ⟨out, hout, h.mpr (by decide)⟩

/-- "../a" becomes "a", so against "/x" it names "/x/a" and no longer "/a". -/
theorem akFilepathNormalize_drops_parent :
    climbs 0 (List.splitOn slash [46, 46, 47, 97]) ≤ [([120] : Name)].length ∧
      akFilepathNormalize (fun _ => true) (akFilepathInit zeroState) [46, 46, 47, 97] = some [97] ∧
      resolve [[120]] [46, 46, 47, 97] = [[97]] ∧ resolve [[120]] [97] = [[120], [97]] := by
  decide

end Ak24.FilepathNormalize
