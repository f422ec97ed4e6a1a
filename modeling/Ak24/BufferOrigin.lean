import Ak24.BufferRefinement
import Ak24.BufferSplit

namespace Ak24.BufferOrigin

open Transition Blocks BufferModel BufferRefinement BufferSplit

inductive Derivation
  | subBuffer (offset length : Nat)
  | copy
  | splitLeft (index l r : Nat)
  | splitRight (index l r : Nat)
  | trimLeft (byte : UInt8)
  | trimRight (byte : UInt8)
  | shrinkToFit
  deriving DecidableEq, Repr

/-- A split that would write past one of its parts is no step. -/
inductive Derives (b : Buffer) : List Derivation → Buffer → Prop
  | subBuffer (offset length : Nat) (grants : Grants) (sub : Buffer) (bytesCopied : Int)
    (h : akBufferSubBuffer b offset length grants = some (some sub, bytesCopied)) :
    Derives b [.subBuffer offset length] sub
  | copy (grants : Grants) (copy : Buffer) (h : akBufferCopy b grants = some (some copy)) : Derives b [.copy] copy
  | splitLeft (index l r : Nat) (leftGrants rightGrants : Grants) (left right : Buffer)
    (h : akBufferSplit b index l r leftGrants rightGrants = some ⟨some left, some right⟩) :
    Derives b [.splitLeft index l r] left
  | splitRight (index l r : Nat) (leftGrants rightGrants : Grants) (left right : Buffer)
    (h : akBufferSplit b index l r leftGrants rightGrants = some ⟨some left, some right⟩) :
    Derives b [.splitRight index l r] right
  | trimLeft (byte : UInt8) (granted : Bool) (code : Int) (b' : Buffer)
    (h : akBufferTrimLeft b byte granted = some (code, b')) : Derives b [.trimLeft byte] b'
  | trimRight (byte : UInt8) (granted : Bool) (code : Int) (b' : Buffer)
    (h : akBufferTrimRight b byte granted = some (code, b')) : Derives b [.trimRight byte] b'
  | shrinkToFit (granted : Bool) : Derives b [.shrinkToFit] (akBufferShrinkToFit b granted).2

/-- Every byte of `b` is the byte of the original that its origin offset names. -/
def Tracks (original b : Buffer) : Prop :=
  ∀ i < b.count, b.originOffset + i < original.count ∧ b.data[i]? = original.data[b.originOffset + i]?

/-- The derivation takes nothing off the front, or leaves nothing. A part of a split
has no offset, so that it has to begin where the original does. -/
def KeepsOrigin (b : Buffer) : Derivation → Prop
  | .trimLeft byte => (contents b).head? ≠ some byte ∨ ∀ x ∈ contents b, x = byte
  | .splitLeft index _ _ => b.originOffset = 0 ∨ index = 0
  | .splitRight index _ _ => b.originOffset + index = 0 ∨ index = b.count
  | _ => True

def Keeps (b : Buffer) (derivations : List Derivation) : Prop := ∀ d ∈ derivations, KeepsOrigin b d

section Origins

variable {b b' left right sub copy : Buffer} {offset length index l r : Nat} {grants leftGrants rightGrants : Grants}
  {granted : Bool} {byte : UInt8} {code copied : Int}

theorem akBufferShrinkToFit_origin (h : akBufferShrinkToFit b granted = (code, b')) :
    b'.originOffset = b.originOffset := by
  unfold akBufferShrinkToFit at h
  split_ifs at h <;> cases h <;> rfl

theorem akBufferTrimLeft_origin (h : akBufferTrimLeft b byte granted = some (code, b')) :
    b'.originOffset = b.originOffset := by
  unfold akBufferTrimLeft at h
  split_ifs at h
  · cases h
    rfl
  · split at h
    · cases h
    · split_ifs at h
      · cases h
        rfl
      · rw [akBufferShrinkToFit_origin (Option.some.inj h)]
      · split at h
        · cases h
        · split at h
          · cases h
          · rw [akBufferShrinkToFit_origin (Option.some.inj h)]

theorem akBufferTrimRight_origin (h : akBufferTrimRight b byte granted = some (code, b')) :
    b'.originOffset = b.originOffset := by
  unfold akBufferTrimRight at h
  split_ifs at h
  · cases h
    rfl
  · split at h
    · cases h
    · split_ifs at h
      · cases h
        rfl
      · rw [akBufferShrinkToFit_origin (Option.some.inj h)]

theorem akBufferSubBuffer_origin (h : akBufferSubBuffer b offset length grants = some (some sub, copied)) :
    sub.originOffset = (b.originOffset + offset) % 2 ^ 64 := by
  unfold akBufferSubBuffer at h
  by_cases hoffset : offset ≥ b.count
  · rw [if_pos hoffset] at h
    cases h
  simp only [if_neg hoffset] at h
  generalize (if length > b.count - offset then b.count - offset else length) = actualLength at h
  by_cases hempty : actualLength = 0
  · rw [if_pos hempty] at h
    split at h
    · cases h
    · cases h
      rfl
  · rw [if_neg hempty] at h
    split at h
    · cases h
    · split at h
      · cases h
      · split at h
        · cases h
        · cases h
          rfl

theorem akBufferCopy_origin (h : akBufferCopy b grants = some (some copy)) : copy.originOffset = b.originOffset := by
  unfold akBufferCopy at h
  split at h
  · cases h
  · split_ifs at h
    · split at h
      · cases h
      · split at h
        · cases h
        · cases h
          rfl
    · cases h
      rfl

end Origins

def OriginOk (bytes : List UInt8) (b : Buffer) : Prop :=
  ∃ l, BufferOk b l ∧ l <+: bytes.drop b.originOffset

section Steps

variable {b b' part : Buffer} {bytes l : List UInt8} {offset n : Nat} {derivations : List Derivation}

theorem sound_of_ok (h : BufferOk b l) : Sound b := ⟨h.count_le, h.capacity⟩

theorem stored_of_ok (h : BufferOk b l) : stored b = l.map some := by
  obtain ⟨rest, hdata⟩ := h.held
  rw [stored, hdata, h.count, List.take_left' (by simp)]

theorem ok_of_part (h : PartOk part (l.map some)) : BufferOk part l := by
  have hcount := h.sound.count
  have hlength : min part.count part.data.length = l.length := by
    rw [← List.length_take, ← stored, h.stored, List.length_map]
  rw [h.sound.data] at hlength
  refine ⟨⟨part.data.drop part.count, ?_⟩, by omega, h.sound.data, h.pos⟩
  rw [← h.stored, stored, List.take_append_drop]

theorem slice_drop (h : l <+: bytes.drop offset) (n : Nat) : l.drop n <+: bytes.drop (offset + n) := by
  rw [← List.drop_drop]
  exact h.drop n

theorem OriginOk.of_part (hpart : PartOk part (l.map some)) (hslice : l <+: bytes) : OriginOk bytes part := by
  refine ⟨l, ok_of_part hpart, ?_⟩
  rw [hpart.origin, List.drop_zero]
  exact hslice

theorem dropWhile_keeps {byte : UInt8} (h : l.head? ≠ some byte ∨ ∀ x ∈ l, x = byte) :
    l.dropWhile (· == byte) <+: l := by
  rcases h with hhead | hall
  · cases l with
    | nil => exact List.prefix_rfl
    | cons x l =>
        have hne : ¬x = byte := by simpa using hhead
        rw [List.dropWhile_cons_of_neg (by simpa using hne)]
  · rw [List.dropWhile_eq_nil_iff.mpr (by simpa using hall)]
    exact List.nil_prefix

theorem OriginOk.subBuffer {offset length : Nat} {grants : Grants} {sub : Buffer} {copied : Int}
    (hsize : bytes.length < 2 ^ 64) (hok : BufferOk b l) (hslice : l <+: bytes.drop b.originOffset)
    (hsub : akBufferSubBuffer b offset length grants = some (some sub, copied)) : OriginOk bytes sub := by
  obtain ⟨_, _, hcall, hmade⟩ := akBufferSubBuffer_ok hok offset length grants
  rw [hsub] at hcall
  cases hcall
  rcases hmade with ⟨_, l', ⟨⟩, hderived, hok'⟩ | ⟨⟨⟩, -⟩
  rw [derived] at hderived
  split_ifs at hderived with hlt
  cases hderived
  have hlength := hslice.length_le
  rw [List.length_drop] at hlength
  refine ⟨_, hok', ?_⟩
  rw [akBufferSubBuffer_origin hsub, Nat.mod_eq_of_lt (by omega)]
  exact (List.take_prefix _ _).trans (slice_drop hslice offset)

theorem OriginOk.step (hsize : bytes.length < 2 ^ 64) (h : OriginOk bytes b)
    (hs : guarded Keeps Derives b derivations b') : OriginOk bytes b' := by
  obtain ⟨hstep, hkeeps⟩ := hs
  obtain ⟨l, hok, hslice⟩ := h
  cases hstep with
  | subBuffer offset length grants sub copied hsub => exact .subBuffer hsize hok hslice hsub
  | copy grants copy hcopy =>
      obtain ⟨_, hcall, hmade⟩ := akBufferCopy_ok hok grants
      rw [hcopy] at hcall
      cases hcall
      rcases hmade with ⟨_, ⟨⟩, hok'⟩ | ⟨⟨⟩, -⟩
      exact ⟨l, hok', by rwa [akBufferCopy_origin hcopy]⟩
  | splitLeft index _ _ leftGrants rightGrants left right hsplit =>
      have hkeep : b.originOffset = 0 ∨ index = 0 := hkeeps _ (List.mem_singleton.mpr rfl)
      obtain ⟨-, hleft, -⟩ := akBufferSplit_parts (sound_of_ok hok) hsplit
      rw [stored_of_ok hok, ← List.map_take] at hleft
      refine .of_part hleft ?_
      rcases hkeep with hzero | rfl
      · rw [hzero, List.drop_zero] at hslice
        exact (List.take_prefix _ _).trans hslice
      · exact List.nil_prefix
  | splitRight index _ _ leftGrants rightGrants left right hsplit =>
      have hkeep : b.originOffset + index = 0 ∨ index = b.count := hkeeps _ (List.mem_singleton.mpr rfl)
      obtain ⟨-, -, hright⟩ := akBufferSplit_parts (sound_of_ok hok) hsplit
      rw [stored_of_ok hok, ← List.map_drop] at hright
      refine .of_part hright ?_
      rcases hkeep with hzero | rfl
      · have hrest := slice_drop hslice index
        rwa [hzero, List.drop_zero] at hrest
      · rw [hok.count, List.drop_length]
        exact List.nil_prefix
  | trimLeft byte granted code b' htrim =>
      have hkeep : (contents b).head? ≠ some byte ∨ ∀ x ∈ contents b, x = byte :=
        hkeeps _ (List.mem_singleton.mpr rfl)
      obtain ⟨_, _, hcall, hok', -⟩ := akBufferTrimLeft_ok hok byte granted
      rw [htrim] at hcall
      cases hcall
      rw [hok.contents_eq] at hkeep
      exact ⟨_, hok', by rw [akBufferTrimLeft_origin htrim]; exact (dropWhile_keeps hkeep).trans hslice⟩
  | trimRight byte granted code b' htrim =>
      obtain ⟨_, _, hcall, hok', -⟩ := akBufferTrimRight_ok hok byte granted
      rw [htrim] at hcall
      cases hcall
      refine ⟨_, hok', ?_⟩
      rw [akBufferTrimRight_origin htrim]
      exact (List.rdropWhile_prefix _ _).trans hslice
  | shrinkToFit granted =>
      have horigin : (akBufferShrinkToFit b granted).2.originOffset = b.originOffset :=
        akBufferShrinkToFit_origin Prod.mk.eta.symm
      exact ⟨l, (akBufferShrinkToFit_ok hok granted).1, by rwa [horigin]⟩

theorem OriginOk.tracks {original : Buffer} (horiginal : BufferOk original bytes) (h : OriginOk bytes b) :
    Tracks original b := by
  obtain ⟨l, hok, hslice⟩ := h
  intro i hi
  rw [hok.count] at hi
  have hlength := hslice.length_le
  rw [List.length_drop] at hlength
  have hbyte : bytes[b.originOffset + i]? = some l[i] := by
    rw [← List.getElem?_drop, ← List.prefix_iff_getElem?.mp hslice i hi]
  refine ⟨by rw [horiginal.count]; omega, ?_⟩
  obtain ⟨hlt, heq⟩ := List.getElem?_eq_some_iff.mp hbyte
  rw [hok.held.getElem? hi, horiginal.held.getElem? hlt, heq]

end Steps

/-- In every derivation that takes nothing off the front without a trace, the bytes
are those of the original at the origin offset. -/
theorem origin_tracked {original b : Buffer} {bytes : List UInt8} {derivations : List Derivation}
    (hok : BufferOk original bytes) (hsize : original.count < 2 ^ 64) (horigin : original.originOffset = 0)
    (hrun : Run (guarded Keeps Derives) original derivations b) : Tracks original b := by
  rw [hok.count] at hsize
  have hinv : OriginOk bytes b := by
    apply hrun.invariant (P := fun _ b => OriginOk bytes b)
    · exact ⟨bytes, hok, by rw [horigin, List.drop_zero]⟩
    · intro _ b derivations b' h hs
      exact h.step hsize hs
  exact hinv.tracks hok

def sample : Buffer := ⟨(([9, 9, 1, 2, 3] : List UInt8).map some) ++ List.replicate 11 none, 16, 5, 0⟩

theorem sample_ok : BufferOk sample [9, 9, 1, 2, 3] := ⟨⟨List.replicate 11 none, rfl⟩, rfl, rfl, by decide⟩

/-- A slice of a slice, trimmed at the end. -/
theorem slice_of_slice_tracked : ∃ derivations b, Run (guarded Keeps Derives) sample derivations b ∧
    contents b = [1, 2] ∧ b.originOffset = 2 ∧ Tracks sample b := by
  have r₁ : Run (guarded Keeps Derives) sample _ _ :=
    .next .start ⟨.subBuffer 1 4 ⟨true, true⟩ _ _ rfl, by simp [Keeps, KeepsOrigin]⟩
  have r₂ := r₁.next ⟨.subBuffer 1 3 ⟨true, true⟩ _ _ rfl, by simp [Keeps, KeepsOrigin]⟩
  have r₃ := r₂.next ⟨.trimRight 3 true _ _ rfl, by simp [Keeps, KeepsOrigin]⟩
  exact ⟨_, _, r₃, by decide, rfl, origin_tracked sample_ok (by decide) rfl r₃⟩

/-- Trimming the front moves the bytes and not the offset. -/
theorem trim_forgets_origin : BufferOk sample [9, 9, 1, 2, 3] ∧ sample.originOffset = 0 ∧
    ∃ derivations b, Run Derives sample derivations b ∧ ¬Tracks sample b := by
  have r₁ : Run Derives sample _ _ := .next .start (.trimLeft 9 true _ _ rfl)
  refine ⟨sample_ok, rfl, _, _, r₁, ?_⟩
  intro htracks
  obtain ⟨-, heq⟩ := htracks 0 (by decide)
  revert heq
  decide

end Ak24.BufferOrigin
