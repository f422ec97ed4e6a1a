import Ak24.ArenaArithmetic

namespace Ak24.ArenaAligned

open ArenaModel ArenaChain ArenaLive ArenaArithmetic Transition Words

def ReturnsAligned (arena : Arena) (size align : Size) (grant : Option Nat) : Prop :=
  ∀ ptr arena', akArenaAllocAligned arena size align grant = some (some ptr, arena') → align.toNat ∣ ptr

/-- The data of the block from which a request is served: the current one, or a new one
when that lacks room. -/
def servingData (block : ArenaBlock) (size align : Size) (grant : Option Nat) : Option Nat :=
  if size = 0 then none else if block.lacksRoom size align then grant else some block.data

section Offsets

variable {arena : Arena} {block : ArenaBlock} {size align : Size} {grant : Option Nat} {k : Nat}

theorem validAlign_of_pow (halign : align.toNat = 2 ^ k) : validAlign align = true := by
  have hnonzero : align ≠ 0 := by
    rintro rfl
    exact absurd halign (Nat.two_pow_pos k).ne
  have hmask : align &&& (align - 1) = 0 := by
    apply BitVec.eq_of_toNat_eq
    rw [and_mask_toNat halign, halign, Nat.mod_self]
    rfl
  rw [validAlign, decide_eq_true_eq]
  exact ⟨hnonzero, hmask⟩

theorem dvd_alignUp (halign : align.toNat = 2 ^ k) (value : Size) : align.toNat ∣ (alignUp value align).toNat := by
  have hsplit := and_add_and_not_toNat (value + align - 1) (align - 1)
  rw [and_mask_toNat halign] at hsplit
  have hdiv := Nat.mod_add_div (value + align - 1).toNat (2 ^ k)
  rw [alignUp, halign]
  exact ⟨(value + align - 1).toNat / 2 ^ k, by omega⟩

theorem returnsAligned_iff (hblock : arena.blocks[arena.currentBlock]? = some block) (halign : align.toNat = 2 ^ k) :
    ReturnsAligned arena size align grant ↔
      ∀ data, servingData block size align grant = some data → align.toNat ∣ data := by
  unfold ReturnsAligned akArenaAllocAligned servingData
  by_cases hzero : size = 0
  · simp [hzero]
  simp only [hzero, validAlign_of_pow halign, hblock, bind, Option.bind, if_false, Bool.not_true, Bool.false_eq_true]
  by_cases hroom : block.lacksRoom size align = true
  · rw [if_pos hroom, if_pos hroom]
    cases grant with
    | none => simp [allocateBlock]
    | some data =>
        refine (forall_answer_iff (P := fun ptr _ => align.toNat ∣ ptr) _ _).trans ?_
        simp
  · rw [if_neg hroom, if_neg hroom]
    refine (forall_answer_iff (P := fun ptr _ => align.toNat ∣ ptr) _ _).trans ?_
    rw [Nat.dvd_add_left (dvd_alignUp halign block.used)]
    simp

end Offsets

/-- In every state of an arena whose blocks are aligned to sixteen bytes, the pointer is
aligned exactly when the block that serves the request is; which it is for alignments
up to sixteen. -/
theorem alloc_aligned_iff {s₀ s : Session} {calls : List Call} {blockSize : Size} (hfresh : Fresh blockSize s₀)
    (hrun : Run Step s₀ calls s) (hdata : ∀ block ∈ s.arena.blocks, 16 ∣ block.data) (size align : Size) (k : Nat)
    (halign : align.toNat = 2 ^ k) (grant : Option Nat) (hgrant : ∀ data, grant = some data → 16 ∣ data) :
    ∃ block, s.arena.blocks[s.arena.currentBlock]? = some block ∧
      (ReturnsAligned s.arena size align grant ↔
        ∀ data, servingData block size align grant = some data → align.toNat ∣ data) ∧
      (align.toNat ≤ 16 → ReturnsAligned s.arena size align grant) := by
  obtain ⟨⟨chain, hok⟩, -⟩ := session_of_run hfresh hrun
  obtain ⟨block, hblock⟩ := hok.chain.has_block
  have hiff : ReturnsAligned s.arena size align grant ↔ _ := returnsAligned_iff hblock halign
  refine ⟨block, hblock, hiff, ?_⟩
  intro hsmall
  refine hiff.mpr ?_
  intro data hserving
  have hsixteen : align.toNat ∣ 16 := by
    rw [halign] at hsmall ⊢
    have hk : k ≤ 4 := (Nat.pow_le_pow_iff_right (by norm_num)).mp (show 2 ^ k ≤ 2 ^ 4 from hsmall)
    exact Nat.pow_dvd_pow 2 hk
  apply hsixteen.trans
  unfold servingData at hserving
  split_ifs at hserving
  · exact hgrant data hserving
  · cases hserving
    exact hdata block (List.mem_of_getElem? hblock)

def oddBlock : Session := ⟨⟨[⟨4112, 256, 0, 0, none⟩], 0, 0, 256, 256, 0, 1⟩, [], [], 0⟩

theorem oddBlock_fresh : Fresh 256 oddBlock := ⟨true, 4112, rfl, rfl, rfl, rfl, by decide⟩

theorem sixteen_aligned : ReturnsAligned oddBlock.arena 100 16 none := by
  obtain ⟨-, -, -, hsmall⟩ := alloc_aligned_iff oddBlock_fresh .start (by decide) 100 16 4 rfl none nofun
  exact hsmall (by decide)

/-- An alignment of thirty-two is one of the offset in the block only. -/
theorem thirty_two_misaligned : Fresh 256 oddBlock ∧ (∀ block ∈ oddBlock.arena.blocks, 16 ∣ block.data) ∧
    ¬ReturnsAligned oddBlock.arena 100 32 none := by
  refine ⟨oddBlock_fresh, by decide, ?_⟩
  intro haligned
  have hdvd := haligned 4112 _ rfl
  revert hdvd
  decide

end Ak24.ArenaAligned
