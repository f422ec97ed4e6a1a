import Ak24.FilepathNormalize
import Ak24.PathJoin

namespace Ak24.FilepathCanonical

open FilepathModel FilepathNormalize PathResolve PathJoin

def Component (name : Name) : Prop := Plain name ∧ slash ∉ name

def Canonical (out : Name) : Prop :=
  out = dot ∨ out = [slash] ∨
    ∃ names, names ≠ [] ∧ (∀ name ∈ names, Component name) ∧
      (out = [slash].intercalate names ∨ out = slash :: [slash].intercalate names)

def render (isAbsolute : Bool) (names : List Name) : Name :=
  if isAbsolute then slash :: [slash].intercalate names
  else if names = [] then dot else [slash].intercalate names

theorem kept_component (path : Name) : ∀ name ∈ kept path, Component name :=
  fun name hn => ⟨kept_plain path name hn, kept_no_slash path name hn⟩

theorem kept_eq (path : Name) : kept path = (walk [] (parts path)).map cut := by
  rw [kept, walk_parts]

section Render

variable {names : List Name}

theorem intercalate_head? (h : ∀ name ∈ names, Component name) : ([slash].intercalate names).head? ≠ some slash := by
  cases names with
  | nil => simp
  | cons name names =>
      obtain ⟨⟨hne, -⟩, hs⟩ := h name List.mem_cons_self
      obtain ⟨c, name, rfl⟩ := List.exists_cons_of_ne_nil hne
      have hc : c ≠ slash := by
        rintro rfl
        exact hs List.mem_cons_self
      cases names <;> simp [hc]

theorem intercalate_getLast? (h : ∀ name ∈ names, Component name) :
    ([slash].intercalate names).getLast? ≠ some slash := by
  induction names with
  | nil => simp
  | cons name names ih =>
      obtain ⟨⟨hne, -⟩, hs⟩ := h name List.mem_cons_self
      cases names with
      | nil =>
          rw [List.intercalate_singleton]
          exact fun hlast => hs (List.mem_of_getLast? hlast)
      | cons name' names =>
          have hrest := ih fun n hn => h n (List.mem_cons_of_mem _ hn)
          have hne' : [slash].intercalate (name' :: names) ≠ [] := by
            rw [Ne, intercalate_eq_nil fun n hn => (h n (List.mem_cons_of_mem _ hn)).1]
            exact List.cons_ne_nil _ _
          have hcons : [slash].intercalate (name :: name' :: names) =
              (name ++ [slash]) ++ [slash].intercalate (name' :: names) := by simp
          rwa [hcons, List.getLast?_append_of_ne_nil _ hne']

theorem render_isAbsolute (isAbsolute : Bool) (h : ∀ name ∈ names, Component name) :
    akFilepathIsAbsolute (render isAbsolute names) = isAbsolute := by
  have hhead := intercalate_head? h
  rw [akFilepathIsAbsolute, render]
  cases isAbsolute with
  | true => rfl
  | false =>
      simp only [Bool.false_eq_true, if_false]
      split_ifs
      · rfl
      · simpa [slash] using hhead

theorem walk_render (isAbsolute : Bool) (h : ∀ name ∈ names, Component name) :
    walk [] (parts (render isAbsolute names)) = names := by
  have hnames : walk [] (parts ([slash].intercalate names)) = names := by
    rw [parts_names fun n hn => ⟨(h n hn).1.1, (h n hn).2⟩, walk_plain fun n hn => (h n hn).1, List.nil_append]
  rw [render]
  split_ifs with ha hnil
  · rw [parts_slash, hnames]
  · rw [hnil]
    rfl
  · exact hnames

theorem canonical_render (isAbsolute : Bool) (h : ∀ name ∈ names, Component name) :
    Canonical (render isAbsolute names) ∧
      (render isAbsolute names ≠ [slash] → (render isAbsolute names).getLast? ≠ some slash) := by
  have hlast := intercalate_getLast? h
  by_cases hnil : names = []
  · subst hnil
    cases isAbsolute with
    | true => exact ⟨.inr (.inl rfl), fun hne => absurd rfl hne⟩
    | false => exact ⟨.inl rfl, by decide⟩
  · have hne : [slash].intercalate names ≠ [] := by
      rwa [Ne, intercalate_eq_nil fun n hn => (h n hn).1]
    cases isAbsolute with
    | true =>
        refine ⟨.inr (.inr ⟨names, hnil, h, .inr rfl⟩), fun _ => ?_⟩
        rwa [render, if_pos rfl, List.getLast?_cons_of_ne_nil hne]
    | false =>
        rw [render, if_neg Bool.false_ne_true, if_neg hnil]
        exact ⟨.inr (.inr ⟨names, hnil, h, .inl rfl⟩), fun _ => hlast⟩

end Render

theorem akFilepathNormalize_render {alloc : Nat → Bool} (halloc : ∀ n, alloc n = true) (path : Name) :
    akFilepathNormalize alloc (akFilepathInit zeroState) path =
      some (render (akFilepathIsAbsolute path) ((walk [] (parts path)).map cut)) := by
  rw [akFilepathNormalize_eq halloc, ← kept_eq]
  rfl

/-- Normalising gives the names of a path, walked, as a canonical path, and gives
a canonical path it gave back as it is. -/
theorem akFilepathNormalize_canonical (alloc : Nat → Bool) (halloc : ∀ n, alloc n = true) (path : Name) :
    ∃ out, akFilepathNormalize alloc (akFilepathInit zeroState) path = some out ∧
      out = render (akFilepathIsAbsolute path) ((walk [] (parts path)).map cut) ∧
      Canonical out ∧ (out ≠ [slash] → out.getLast? ≠ some slash) ∧
      akFilepathNormalize alloc (akFilepathInit zeroState) out = some out := by
  have hcomponents := kept_component path
  have hcut : (kept path).map cut = kept path := by
    rw [kept, List.map_map]
    apply List.map_congr_left
    intro name _
    exact List.take_of_length_le (List.length_take_le _ _)
  refine ⟨_, akFilepathNormalize_render halloc path, rfl, ?_⟩
  rw [← kept_eq]
  obtain ⟨hform, hlast⟩ := canonical_render (akFilepathIsAbsolute path) hcomponents
  refine ⟨hform, hlast, ?_⟩
  rw [akFilepathNormalize_render halloc, render_isAbsolute _ hcomponents, walk_render _ hcomponents, hcut]

theorem akFilepathNormalize_canonical_dots : ∃ out,
    akFilepathNormalize (fun _ => true) (akFilepathInit zeroState) [47, 47, 97, 47, 46, 46, 47, 98, 47] = some out ∧
      out = [47, 98] ∧ akFilepathNormalize (fun _ => true) (akFilepathInit zeroState) out = some out := by
  obtain ⟨out, hout, -, -, -, hagain⟩ := akFilepathNormalize_canonical (fun _ => true) (fun _ => rfl)
    [47, 47, 97, 47, 46, 46, 47, 98, 47]
  exact ⟨out, hout, Option.some.inj (hout.symm.trans (by decide)), hagain⟩

end Ak24.FilepathCanonical
