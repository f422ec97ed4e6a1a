import Ak24.BufferModel

namespace Ak24.BufferSplit

open Blocks BufferModel

/-- The bytes below the count of a buffer, as they lie in its block. -/
def stored (b : Buffer) : List (Option UInt8) := b.data.take b.count

/-- The count of a buffer is within its capacity, which is the size of its block. -/
structure Sound (b : Buffer) : Prop where
  count : b.count ≤ b.capacity
  data : b.data.length = b.capacity

/-- Whatever memory is refused, the call returns, and two parts that it returns
are the bytes before and from the index on. -/
def SafePartition (b : Buffer) (index l r : Nat) : Prop :=
  ∀ leftGrants rightGrants, ∃ split, akBufferSplit b index l r leftGrants rightGrants = some split ∧
    ∀ left right, split = ⟨some left, some right⟩ →
      stored left = (stored b).take index ∧ stored right = (stored b).drop index ∧
        stored left ++ stored right = stored b ∧ Sound left ∧ Sound right

structure PartOk (part : Buffer) (bytes : List (Option UInt8)) : Prop where
  sound : Sound part
  stored : stored part = bytes
  pos : 1 ≤ part.capacity
  origin : part.originOffset = 0

section Parts

variable {b part : Buffer} {contentSize hint offset n : Nat} {grants : Grants}

theorem splitCapacity_eq (contentSize hint : Nat) :
    splitCapacity contentSize hint = max minBufferSize (min contentSize hint) := by
  simp only [splitCapacity, minBufferSize]
  split_ifs <;> omega

theorem akBufferNew_split (h : akBufferNew (splitCapacity contentSize hint) grants = some part) :
    part = ⟨alloc (splitCapacity contentSize hint), splitCapacity contentSize hint, 0, 0⟩ := by
  have hlarge : ¬splitCapacity contentSize hint < minBufferSize := by
    rw [splitCapacity_eq]
    omega
  unfold akBufferNew at h
  rw [if_neg hlarge] at h
  split_ifs at h
  exact (Option.some.inj h).symm

theorem read_stored (h : Sound b) (hn : offset + n ≤ b.count) :
    read b.data offset n = some (((stored b).drop offset).take n) := by
  have hroom : offset + n ≤ b.data.length := by
    rw [h.data]
    exact hn.trans h.count
  rw [Blocks.read, if_pos hroom, stored, List.drop_take, List.take_take, min_eq_left (by omega)]

theorem length_slice (h : Sound b) (hn : offset + n ≤ b.count) : (((stored b).drop offset).take n).length = n := by
  have hcount := h.count
  rw [List.length_take, List.length_drop, stored, List.length_take, h.data]
  omega

/-- A part gets its bytes when they fit, and otherwise the copy leaves its block. -/
theorem copyPart_spec (h : Sound b) (hnew : akBufferNew (splitCapacity contentSize hint) grants = some part)
    (offset : Nat) (hn : offset + contentSize ≤ b.count) :
    if contentSize ≤ splitCapacity contentSize hint then
      ∃ part', copyPart b part offset contentSize = some part' ∧
        PartOk part' (((stored b).drop offset).take contentSize)
    else copyPart b part offset contentSize = none := by
  have hpart := akBufferNew_split hnew
  subst hpart
  have hread := read_stored h hn
  have hlength := length_slice h hn
  have hpositive : 1 ≤ splitCapacity contentSize hint := by
    rw [splitCapacity_eq, minBufferSize]
    omega
  generalize splitCapacity contentSize hint = capacity at hpositive ⊢
  generalize ((stored b).drop offset).take contentSize = bytes at hread hlength
  unfold copyPart
  by_cases hpos : contentSize > 0
  · rw [if_pos hpos]
    simp only [hread]
    split_ifs with hfits
    · have hwrite : write (alloc capacity) 0 bytes = some (bytes ++ (alloc capacity).drop contentSize) := by
        rw [write, if_pos (by rw [length_alloc]; omega)]
        simp [hlength]
      rw [hwrite]
      refine ⟨_, rfl, ⟨hfits, ?_⟩, List.take_left' hlength, hpositive, rfl⟩
      rw [length_write hwrite, length_alloc]
    · rw [write, if_neg (by rw [length_alloc]; omega)]
  · obtain rfl : contentSize = 0 := by omega
    have hnil : bytes = [] := List.length_eq_zero_iff.mp hlength
    subst hnil
    rw [if_neg hpos, if_pos (Nat.zero_le _)]
    exact ⟨_, rfl, ⟨Nat.zero_le _, length_alloc⟩, rfl, hpositive, rfl⟩

theorem fits_iff : contentSize ≤ splitCapacity contentSize hint ↔ contentSize ≤ minBufferSize ∨ contentSize ≤ hint := by
  rw [splitCapacity_eq]
  omega

end Parts

section Splits

variable {b left right : Buffer} {index l r : Nat} {leftGrants rightGrants : Grants}

def Fits (b : Buffer) (index l r : Nat) : Prop :=
  index ≤ splitCapacity index l ∧ b.count - index ≤ splitCapacity (b.count - index) r

theorem akBufferSplit_made (h : Sound b) (hindex : index ≤ b.count)
    (hnewLeft : akBufferNew (splitCapacity index l) leftGrants = some left)
    (hnewRight : akBufferNew (splitCapacity (b.count - index) r) rightGrants = some right) :
    (Fits b index l r ∧ ∃ left' right', akBufferSplit b index l r leftGrants rightGrants =
      some ⟨some left', some right'⟩ ∧ PartOk left' ((stored b).take index) ∧ PartOk right' ((stored b).drop index)) ∨
      ¬Fits b index l r ∧ akBufferSplit b index l r leftGrants rightGrants = none := by
  have hcopyLeft := copyPart_spec h hnewLeft 0 (by omega)
  have hcopyRight := copyPart_spec h hnewRight index (by omega)
  have hrest : ((stored b).drop index).take (b.count - index) = (stored b).drop index :=
    List.take_of_length_le (by rw [List.length_drop, stored, List.length_take]; omega)
  rw [hrest] at hcopyRight
  rw [List.drop_zero] at hcopyLeft
  simp only [akBufferSplit, if_neg (not_lt.mpr hindex), hnewLeft, hnewRight]
  split_ifs at hcopyLeft with hleft
  · obtain ⟨left', hleft', hokLeft⟩ := hcopyLeft
    split_ifs at hcopyRight with hright
    · obtain ⟨right', hright', hokRight⟩ := hcopyRight
      simp only [hleft', hright']
      exact .inl ⟨⟨hleft, hright⟩, left', right', rfl, hokLeft, hokRight⟩
    · simp only [hleft', hcopyRight]
      exact .inr ⟨fun hfits => hright hfits.2, trivial⟩
  · simp only [hcopyLeft]
    exact .inr ⟨fun hfits => hleft hfits.1, trivial⟩

theorem akBufferSplit_spec (h : Sound b) (hindex : index ≤ b.count) (leftGrants rightGrants : Grants) :
    akBufferSplit b index l r leftGrants rightGrants = some ⟨none, none⟩ ∨
      (Fits b index l r ∧ ∃ left right, akBufferSplit b index l r leftGrants rightGrants =
        some ⟨some left, some right⟩ ∧ PartOk left ((stored b).take index) ∧ PartOk right ((stored b).drop index)) ∨
      ¬Fits b index l r ∧ akBufferSplit b index l r leftGrants rightGrants = none := by
  cases hnewLeft : akBufferNew (splitCapacity index l) leftGrants with
  | none =>
      left
      simp only [akBufferSplit, if_neg (not_lt.mpr hindex), hnewLeft]
  | some left =>
      cases hnewRight : akBufferNew (splitCapacity (b.count - index) r) rightGrants with
      | none =>
          left
          simp only [akBufferSplit, if_neg (not_lt.mpr hindex), hnewLeft, hnewRight]
      | some right => exact .inr (akBufferSplit_made h hindex hnewLeft hnewRight)

theorem akBufferSplit_parts (h : Sound b)
    (hsplit : akBufferSplit b index l r leftGrants rightGrants = some ⟨some left, some right⟩) :
    index ≤ b.count ∧ PartOk left ((stored b).take index) ∧ PartOk right ((stored b).drop index) := by
  have hindex : index ≤ b.count := by
    by_contra hgt
    rw [akBufferSplit, if_pos (not_le.mp hgt)] at hsplit
    cases hsplit
  refine ⟨hindex, ?_⟩
  rcases akBufferSplit_spec h hindex leftGrants rightGrants with
    hnone | ⟨-, left', right', hparts, hok⟩ | ⟨-, hfault⟩
  · rw [hnone] at hsplit
    cases hsplit
  · rw [hparts] at hsplit
    cases hsplit
    exact hok
  · rw [hfault] at hsplit
    cases hsplit

theorem safe_of_fits (h : Sound b) (hindex : index ≤ b.count) (hfits : Fits b index l r) :
    SafePartition b index l r := by
  intro leftGrants rightGrants
  rcases akBufferSplit_spec h hindex leftGrants rightGrants with
    hnone | ⟨-, left', right', hparts, hleft, hright⟩ | ⟨hlong, -⟩
  · exact ⟨_, hnone, nofun⟩
  · refine ⟨_, hparts, ?_⟩
    rintro _ _ ⟨⟩
    refine ⟨hleft.stored, hright.stored, ?_, hleft.sound, hright.sound⟩
    rw [hleft.stored, hright.stored, List.take_append_drop]
  · exact absurd hfits hlong

theorem fits_of_safe (h : Sound b) (hindex : index ≤ b.count) (hsafe : SafePartition b index l r) :
    Fits b index l r := by
  obtain ⟨split, hsplit, -⟩ := hsafe ⟨true, true⟩ ⟨true, true⟩
  have hnew (n : Nat) : akBufferNew n ⟨true, true⟩ = some _ := rfl
  rcases akBufferSplit_made h hindex (hnew (splitCapacity index l)) (hnew (splitCapacity (b.count - index) r)) with
    ⟨hfits, -⟩ | ⟨-, hfault⟩
  · exact hfits
  · rw [hfault] at hsplit
    cases hsplit

end Splits

/-- A split is a safe partition exactly when each part is within its hint, or is so
short that the hint does not matter. -/
theorem split_partition_iff (b : Buffer) (h : Sound b) (index l r : Nat) (hindex : index ≤ b.count) :
    SafePartition b index l r ↔
      (index ≤ minBufferSize ∨ index ≤ l) ∧ (b.count - index ≤ minBufferSize ∨ b.count - index ≤ r) := by
  rw [← fits_iff, ← fits_iff]
  constructor
  · exact fits_of_safe h hindex
  · exact safe_of_fits h hindex

def twenty : Buffer := ⟨List.replicate 20 (some 7), 20, 20, 0⟩

theorem twenty_sound : Sound twenty := ⟨by decide, by decide⟩

theorem twenty_split_in_two : SafePartition twenty 8 3 20 :=
  (split_partition_iff twenty twenty_sound 8 3 20 (by decide)).mpr ⟨by decide, by decide⟩

/-- With a hint of seventeen the left part is made with seventeen bytes and gets
twenty. -/
theorem split_writes_past_left : Sound twenty ∧ 20 ≤ twenty.count ∧ ¬SafePartition twenty 20 17 0 := by
  refine ⟨twenty_sound, by decide, ?_⟩
  intro hsafe
  obtain ⟨split, hsplit, -⟩ := hsafe ⟨true, true⟩ ⟨true, true⟩
  have hfault : akBufferSplit twenty 20 17 0 ⟨true, true⟩ ⟨true, true⟩ = none := by decide
  rw [hfault] at hsplit
  cases hsplit

end Ak24.BufferSplit
