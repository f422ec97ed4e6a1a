import Ak24.SourcelocLines

namespace Ak24.SourcelocOrder

open Utf8Model Utf8Validity Utf8Boundary SourcelocModel SourcelocLines

def position (loc : SourceLoc) : Nat ×ₗ Nat :=
  toLex (loc.line.toNat, loc.column.toNat)

/-- More bytes never give fewer code points, whatever the bytes are: the cursor
stops at the same places until the shorter text ends. -/
theorem utf8Strlen_mono {bytes more : List UInt8} (h : bytes <+: more) : utf8Strlen bytes ≤ utf8Strlen more := by
  induction bytes using utf8Strlen.induct generalizing more with
  | case1 => rw [utf8Strlen]; exact Nat.zero_le _
  | case2 rest => rw [utf8Strlen, if_pos rfl]; exact Nat.zero_le _
  | case3 c rest hne ih =>
      obtain ⟨tail, rfl⟩ := h
      have hrest := ih ((List.prefix_append rest tail).drop (leadWidth c - 1))
      rw [List.cons_append, utf8Strlen, utf8Strlen, if_neg hne, if_neg hne]
      omega

theorem lastAtMost_mono {table : List Nat} {o₁ o₂ r₁ r₂ : Nat} (h₁ : LastAtMost table o₁ r₁)
    (h₂ : LastAtMost table o₂ r₂) (hle : o₁ ≤ o₂) : r₁ ≤ r₂ := by
  obtain ⟨v, hv, hvo⟩ := h₁.entry
  by_contra hlt
  have := h₂.above r₁ v (by omega) hv
  omega

theorem boundary_three {contents : List UInt8} {p q r : Nat} (hp : Boundary contents p) (hq : Boundary contents q)
    (hr : Boundary contents r) (hpq : p ≤ q) (hqr : q ≤ r) : ∃ before text next after : List Char,
      encode (before ++ text ++ next ++ after) = contents ∧ (encode before).length = p ∧
      (encode (before ++ text)).length = q ∧ (encode (before ++ text ++ next)).length = r := by
  obtain ⟨before, text, rest, he, hb, ht⟩ := boundary_between hp hq hpq
  obtain ⟨l, next, after, he', hl, hn⟩ := boundary_between hq hr hqr
  have hcut : encode (before ++ text) = encode l := by
    have h₁ : contents.take q = encode (before ++ text) := by rw [← he, encode_append, ← ht, List.take_left]
    have h₂ : contents.take q = encode l := by
      rw [← he', List.append_assoc, encode_append, ← hl, List.take_left]
    exact h₁.symm.trans h₂
  obtain rfl := encode_injective hcut
  exact ⟨before, text, next, after, he', hb, ht, hn⟩

theorem utf8Strlen_strictMono {contents : List UInt8} {p q r : Nat} (hp : Boundary contents p)
    (hq : Boundary contents q) (hr : Boundary contents r) (hpq : p ≤ q) (hqr : q < r) (hnul : 0 ∉ contents) :
    utf8Strlen (((contents ++ [0]).drop p).take (q - p)) < utf8Strlen (((contents ++ [0]).drop p).take (r - p)) := by
  obtain ⟨before, text, next, after, he, rfl, rfl, rfl⟩ := boundary_three hp hq hr hpq hqr.le
  have he₁ : encode (before ++ text ++ (next ++ after)) = contents := by rwa [← List.append_assoc]
  have he₂ : encode (before ++ (text ++ next) ++ after) = contents := by rwa [← List.append_assoc before]
  have hshort := utf8Strlen_between he₁ hnul
  have hlong := utf8Strlen_between he₂ hnul
  rw [← List.append_assoc] at hlong
  have hnext : next ≠ [] := by
    rintro rfl
    rw [List.append_nil] at hqr
    exact absurd hqr (Nat.lt_irrefl _)
  have hpos := List.length_pos_iff.mpr hnext
  rw [hshort, hlong, List.length_append]
  omega

/-- Locations order as offsets do, on any contents; on NUL-free valid text the
order is strict between character boundaries. -/
theorem akSourceLocFromOffset_mono (s : Shared) (f : Nat) (contents : List UInt8) (o₁ o₂ : UInt32)
    (hfile : OfContents (s.file f) contents) (hlen : contents.length < 2 ^ 32 - 1) (hle : o₁ ≤ o₂)
    (hoff : o₂.toNat ≤ contents.length) :
    ∃ loc₁ loc₂, akSourceLocFromOffset s (some f) o₁ = some loc₁ ∧ akSourceLocFromOffset s (some f) o₂ = some loc₂ ∧
      position loc₁ ≤ position loc₂ ∧
      (akUtf8Validate contents = true → 0 ∉ contents → Boundary contents o₁.toNat → Boundary contents o₂.toNat →
        o₁ ≠ o₂ → position loc₁ < position loc₂) := by
  have hnat := UInt32.le_iff_toNat_le.mp hle
  obtain ⟨loc₁, r₁, ls₁, h₁, -, -, hlast₁, hentry₁, hline₁, hrow₁, hcolumn₁⟩ :=
    akSourceLocFromOffset_value s f hfile hlen (hnat.trans hoff)
  obtain ⟨loc₂, r₂, ls₂, h₂, -, -, hlast₂, hentry₂, hline₂, hrow₂, hcolumn₂⟩ :=
    akSourceLocFromOffset_value s f hfile hlen hoff
  refine ⟨loc₁, loc₂, h₁, h₂, ?_⟩
  have hp₁ : position loc₁ = toLex (r₁ + 1, loc₁.column.toNat) := by rw [position, hrow₁]
  have hp₂ : position loc₂ = toLex (r₂ + 1, loc₂.column.toNat) := by rw [position, hrow₂]
  rw [hp₁, hp₂, Prod.Lex.toLex_le_toLex, Prod.Lex.toLex_lt_toLex]
  rcases (lastAtMost_mono hlast₁ hlast₂ hnat).lt_or_eq with hlt | rfl
  · exact ⟨Or.inl (Nat.succ_lt_succ hlt), fun _ _ _ _ _ => Or.inl (Nat.succ_lt_succ hlt)⟩
  · obtain rfl : ls₁ = ls₂ := Option.some.inj (hentry₁.symm.trans hentry₂)
    refine ⟨Or.inr ⟨rfl, ?_⟩, fun hvalid hnul hb₁ hb₂ hne => Or.inr ⟨rfl, ?_⟩⟩
    · have hcut : o₁.toNat - ls₁ ≤ o₂.toNat - ls₁ := by omega
      have hmono := utf8Strlen_mono (List.take_prefix_take_left (l := (contents ++ [0]).drop ls₁) hcut)
      rw [hcolumn₁, hcolumn₂]
      omega
    · have hlt : o₁.toNat < o₂.toNat := lt_of_le_of_ne hnat fun he => hne (UInt32.toNat_inj.mp he)
      have hstrict := utf8Strlen_strictMono (hline₁.boundary hvalid) hb₁ hb₂ hline₁.le hlt hnul
      rw [hcolumn₁, hcolumn₂]
      omega

theorem akSourceLocFromOffset_mono_secondLine :
    ∃ loc₁ loc₂, akSourceLocFromOffset ⟨.zero, (Objects.Heap.empty SourceFile).alloc sample⟩ (some 0) 1 = some loc₁ ∧
      akSourceLocFromOffset ⟨.zero, (Objects.Heap.empty SourceFile).alloc sample⟩ (some 0) 4 = some loc₂ ∧
      position loc₁ < position loc₂ := by
  obtain ⟨loc₁, loc₂, h₁, h₂, -, hlt⟩ := akSourceLocFromOffset_mono
    ⟨.zero, (Objects.Heap.empty SourceFile).alloc sample⟩ 0 [0x61, 0x0A, 0xC3, 0xA9, 0x62] 1 4
    ⟨{ SourceFile.fresh with contents := some ([0x61, 0x0A, 0xC3, 0xA9, 0x62] ++ [0]), length := 5 },
      { sample with refCount := 0 }, rfl, rfl, by decide, rfl⟩ (by decide) (by decide) (by decide)
  refine ⟨loc₁, loc₂, h₁, h₂, hlt (validate_encode ['a', '\n', 'é', 'b']) (by decide) ?_ ?_ (by decide)⟩
  · exact ⟨['a'], ['\n', 'é', 'b'], by decide, by decide⟩
  · exact ⟨['a', '\n', 'é'], ['b'], by decide, by decide⟩

end Ak24.SourcelocOrder
