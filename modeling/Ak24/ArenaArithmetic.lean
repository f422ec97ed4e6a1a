import Ak24.ArenaLive

namespace Ak24.ArenaArithmetic

open ArenaModel ArenaChain ArenaLive Transition

def wanted : Request → Nat
  | .calloc nmemb size => nmemb.toNat * size.toNat
  | request => request.bytes.toNat

/-- The request is not for a size that the pointer already has. -/
def Grows : Request → Prop
  | .realloc (some _) oldSize newSize => oldSize < newSize
  | _ => True

def EndsUsed (arena : Arena) (ptr size : Nat) : Prop :=
  ∃ block, arena.blocks[arena.currentBlock]? = some block ∧ block.data ≤ ptr ∧
    ptr - block.data + size ≤ block.size.toNat ∧ block.used.toNat = ptr - block.data + size

/-- A request that is not answered by the null pointer gets all its bytes within a block. -/
def Exact (arena : Arena) (request : Request) (grant : Option Nat) : Prop :=
  ∀ ptr arena', arena.serve request grant = some (some ptr, arena') → Grows request →
    EndsUsed arena' ptr (wanted request)

def AllocNoWrap (arena : Arena) (block : ArenaBlock) (size align : Size) (grant : Option Nat) : Prop :=
  size ≠ 0 → validAlign align = true →
    if block.lacksRoom size align then
      grant ≠ none → size.toNat ≤ arena.blockSize.toNat ∨ size.toNat + arena.blockSize.toNat - 1 < 2 ^ 64
    else (alignUp block.used align).toNat + size.toNat < 2 ^ 64

def NoWrap (arena : Arena) (block : ArenaBlock) (grant : Option Nat) : Request → Prop
  | .alloc size => AllocNoWrap arena block size defaultAlignment grant
  | .allocAligned size align => AllocNoWrap arena block size align grant
  | .calloc nmemb size =>
    nmemb.toNat * size.toNat < 2 ^ 64 → AllocNoWrap arena block (nmemb * size) defaultAlignment grant
  | .realloc none _ newSize => AllocNoWrap arena block newSize defaultAlignment grant
  | .realloc (some ptr) oldSize newSize =>
    oldSize < newSize →
      if block.extends ptr oldSize newSize then
        block.data ≤ ptr ∧ block.used.toNat + (newSize.toNat - oldSize.toNat) < 2 ^ 64
      else AllocNoWrap arena block newSize defaultAlignment grant

section Sums

variable {arena : Arena} {block : ArenaBlock} {size align : Size} {grant : Option Nat}

theorem lacksRoom_eq (block : ArenaBlock) (size align : Size) :
    block.lacksRoom size align = decide (block.size < alignUp block.used align + size) := by
  have hsum : block.used + block.needed size align = alignUp block.used align + size := by
    rw [ArenaBlock.needed]
    bv_omega
  rw [ArenaBlock.lacksRoom, hsum]

theorem endsUsed_take (hblock : arena.blocks[arena.currentBlock]? = some block) (offset needed size : Size) :
    EndsUsed (arena.take block offset needed size).2 (block.data + offset.toNat) size.toNat ↔
      offset.toNat + size.toNat ≤ block.size.toNat ∧ (offset + size).toNat = offset.toNat + size.toNat := by
  have hfound : (arena.take block offset needed size).2.blocks[arena.currentBlock]? =
      some { block with used := offset + size } := set_found hblock
  constructor
  · rintro ⟨block', hblock', -, hfits, hused⟩
    obtain rfl := Option.some.inj (hfound.symm.trans hblock')
    rw [Nat.add_sub_cancel_left] at hfits hused
    exact ⟨hfits, hused⟩
  · rintro ⟨hfits, hused⟩
    refine ⟨_, hfound, Nat.le_add_right _ _, ?_, ?_⟩
    · rwa [Nat.add_sub_cancel_left]
    · rwa [Nat.add_sub_cancel_left]

theorem le_newBlockSize_iff (hpos : arena.blockSize ≠ 0) :
    size.toNat ≤ (arena.newBlockSize size).toNat ↔
      size.toNat ≤ arena.blockSize.toNat ∨ size.toNat + arena.blockSize.toNat - 1 < 2 ^ 64 := by
  have hnonzero : 0 < arena.blockSize.toNat := by
    rw [Nat.pos_iff_ne_zero]
    exact fun h0 => hpos (BitVec.eq_of_toNat_eq h0)
  rw [Arena.newBlockSize]
  split_ifs with hlt
  · rw [BitVec.lt_def] at hlt
    by_cases hsum : size.toNat + arena.blockSize.toNat - 1 < 2 ^ 64
    · have hle := (alignUp_bounds size hpos (by omega)).1
      exact ⟨fun _ => .inr hsum, fun _ => hle⟩
    · have hwrapped : (size + arena.blockSize - 1).toNat < size.toNat := by bv_omega
      have hle : (alignUp size arena.blockSize).toNat ≤ (size + arena.blockSize - 1).toNat := by
        rw [alignUp, BitVec.toNat_and]
        exact Nat.and_le_left
      constructor
      · intro h
        omega
      · rintro (h | h)
        · omega
        · exact absurd h hsum
  · rw [BitVec.not_lt, BitVec.le_def] at hlt
    exact ⟨fun _ => .inl hlt, fun _ => hlt⟩

theorem forall_answer_iff {P : Nat → Arena → Prop} (ptr : Nat) (arena : Arena) :
    (∀ ptr' arena', some (some ptr, arena) = some (some ptr', arena') → P ptr' arena') ↔ P ptr arena := by
  constructor
  · intro h
    exact h ptr arena rfl
  · rintro h _ _ ⟨⟩
    exact h

theorem taken_exact_iff (hblock : arena.blocks[arena.currentBlock]? = some block)
    (hroom : block.lacksRoom size align = false) :
    EndsUsed (arena.take block (alignUp block.used align) (block.needed size align) size).2
        (block.data + (alignUp block.used align).toNat) size.toNat ↔
      (alignUp block.used align).toNat + size.toNat < 2 ^ 64 := by
  rw [lacksRoom_eq, decide_eq_false_iff_not, BitVec.not_lt, BitVec.le_def] at hroom
  rw [endsUsed_take hblock]
  have hmod := BitVec.toNat_add (alignUp block.used align) size
  constructor
  · rintro ⟨-, hused⟩
    rw [← hused]
    exact BitVec.isLt _
  · intro hlt
    rw [Nat.mod_eq_of_lt hlt] at hmod
    exact ⟨by omega, hmod⟩

theorem grown_exact_iff (hpos : arena.blockSize ≠ 0) (block : ArenaBlock) (data : Nat) (blockNum : Size) :
    EndsUsed ((arena.grow block ⟨data, arena.newBlockSize size, 0, blockNum, none⟩).take
        ⟨data, arena.newBlockSize size, 0, blockNum, none⟩ 0 size size).2 (data + (0 : Size).toNat) size.toNat ↔
      size.toNat ≤ arena.blockSize.toNat ∨ size.toNat + arena.blockSize.toNat - 1 < 2 ^ 64 := by
  rw [← le_newBlockSize_iff hpos]
  have hcurrent := grow_current arena block ⟨data, arena.newBlockSize size, 0, blockNum, none⟩
  rw [endsUsed_take hcurrent 0 size size]
  simp

theorem allocAligned_exact_iff (hblock : arena.blocks[arena.currentBlock]? = some block) (hpos : arena.blockSize ≠ 0) :
    (∀ ptr arena', akArenaAllocAligned arena size align grant = some (some ptr, arena') →
      EndsUsed arena' ptr size.toNat) ↔ AllocNoWrap arena block size align grant := by
  unfold akArenaAllocAligned AllocNoWrap
  by_cases hzero : size = 0
  · simp [hzero]
  by_cases halign : validAlign align = true
  swap
  · simp [halign]
  simp only [hzero, halign, hblock, bind, Option.bind, if_false, Bool.not_true, Bool.false_eq_true, ne_eq,
    not_false_eq_true, forall_const]
  by_cases hroom : block.lacksRoom size align = true
  · rw [if_pos hroom, if_pos hroom]
    cases grant with
    | none => simp [allocateBlock]
    | some data =>
        rw [← grown_exact_iff hpos block data arena.nextBlockNum, forall_prop_of_true (Option.some_ne_none data)]
        exact forall_answer_iff _ _
  · rw [if_neg hroom, if_neg hroom, ← taken_exact_iff hblock (Bool.not_eq_true _ ▸ hroom)]
    exact forall_answer_iff _ _

end Sums

section Requests

variable {arena : Arena} {block : ArenaBlock} {grant : Option Nat}

theorem calloc_div_iff {nmemb size : Size} (hnmemb : nmemb ≠ 0) :
    nmemb * size / nmemb = size ↔ nmemb.toNat * size.toNat < 2 ^ 64 := by
  constructor
  · exact calloc_exact
  · intro hlt
    have hpositive : 0 < nmemb.toNat := by
      rw [Nat.pos_iff_ne_zero]
      exact fun h0 => hnmemb (BitVec.eq_of_toNat_eq h0)
    apply BitVec.eq_of_toNat_eq
    rw [BitVec.toNat_udiv, BitVec.toNat_mul, Nat.mod_eq_of_lt hlt, Nat.mul_div_cancel_left _ hpositive]

theorem exact_calloc_iff {nmemb size : Size} (hblock : arena.blocks[arena.currentBlock]? = some block)
    (hpos : arena.blockSize ≠ 0) :
    Exact arena (.calloc nmemb size) grant ↔ NoWrap arena block grant (.calloc nmemb size) := by
  simp only [Exact, Arena.serve, akArenaCalloc, Grows, wanted, NoWrap, forall_const]
  by_cases hzero : nmemb = 0 ∨ size = 0
  · have hnone : nmemb * size = 0 := by
      rcases hzero with rfl | rfl <;> simp
    constructor
    · intro _ _ hsize
      exact absurd hnone hsize
    · intro _ ptr arena' hserve
      rw [if_pos hzero] at hserve
      cases hserve
  · rw [not_or] at hzero
    simp only [hzero, or_self, if_false, ne_eq, calloc_div_iff hzero.1]
    by_cases hlt : nmemb.toNat * size.toNat < 2 ^ 64
    · have hproduct : (nmemb * size).toNat = nmemb.toNat * size.toNat := by
        rw [BitVec.toNat_mul, Nat.mod_eq_of_lt hlt]
      simp only [hlt, not_true, if_false, forall_const]
      rw [← allocAligned_exact_iff hblock hpos, hproduct]
      rfl
    · constructor
      · intro _ h
        exact absurd h hlt
      · intro _ ptr arena' hserve
        rw [if_pos hlt] at hserve
        cases hserve

theorem extended_exact_iff {ptr : Nat} {oldSize newSize totalUsed : Size}
    (hblock : arena.blocks[arena.currentBlock]? = some block) (hlt : oldSize < newSize)
    (hextends : block.extends ptr oldSize newSize = true) :
    EndsUsed
        { arena with
          blocks := arena.blocks.set arena.currentBlock { block with used := block.used + (newSize - oldSize) }
          totalUsed } ptr newSize.toNat ↔
      block.data ≤ ptr ∧ block.used.toNat + (newSize.toNat - oldSize.toNat) < 2 ^ 64 := by
  rw [ArenaBlock.extends, decide_eq_true_eq, BitVec.le_def] at hextends
  obtain ⟨hend, hfits⟩ := hextends
  rw [BitVec.lt_def] at hlt
  have hmore : (newSize - oldSize).toNat = newSize.toNat - oldSize.toNat :=
    BitVec.toNat_sub_of_le (by rw [BitVec.le_def]; omega)
  have hsum := BitVec.toNat_add block.used (newSize - oldSize)
  rw [hmore] at hsum
  have hfound : (arena.blocks.set arena.currentBlock { block with used := block.used + (newSize - oldSize) })[
      arena.currentBlock]? = some { block with used := block.used + (newSize - oldSize) } := set_found hblock
  have hlast := (block.used + (newSize - oldSize)).isLt
  constructor
  · rintro ⟨block', hblock', hle, -, hused⟩
    obtain rfl := Option.some.inj (hfound.symm.trans hblock')
    dsimp only at hle hused
    exact ⟨hle, by omega⟩
  · rintro ⟨hle, hnowrap⟩
    rw [Nat.mod_eq_of_lt hnowrap] at hsum
    refine ⟨_, hfound, hle, ?_, ?_⟩
    · show ptr - block.data + newSize.toNat ≤ block.size.toNat
      omega
    · show (block.used + (newSize - oldSize)).toNat = ptr - block.data + newSize.toNat
      omega

theorem exact_realloc_iff {ptr : Nat} {oldSize newSize : Size}
    (hblock : arena.blocks[arena.currentBlock]? = some block) (hpos : arena.blockSize ≠ 0) :
    Exact arena (.realloc (some ptr) oldSize newSize) grant ↔
      NoWrap arena block grant (.realloc (some ptr) oldSize newSize) := by
  simp only [Exact, Arena.serve, akArenaRealloc, Grows, wanted, NoWrap, hblock, bind, Option.bind]
  by_cases hlt : oldSize < newSize
  · have hnonzero : newSize ≠ 0 := by
      rintro rfl
      exact absurd hlt (BitVec.not_lt_zero)
    have hle : ¬newSize ≤ oldSize := BitVec.not_le.mpr hlt
    simp only [hnonzero, hle, hlt, if_false, forall_const]
    by_cases hextends : block.extends ptr oldSize newSize = true
    · rw [if_pos hextends, if_pos hextends, ← extended_exact_iff hblock hlt hextends]
      exact forall_answer_iff _ _
    · rw [if_neg hextends, if_neg hextends, ← allocAligned_exact_iff hblock hpos]
      rfl
  · simp [hlt]

theorem exact_iff (hblock : arena.blocks[arena.currentBlock]? = some block) (hpos : arena.blockSize ≠ 0)
    (request : Request) : Exact arena request grant ↔ NoWrap arena block grant request := by
  cases request with
  | alloc size =>
      simp only [Exact, Arena.serve, Grows, wanted, forall_const]
      exact allocAligned_exact_iff hblock hpos
  | allocAligned size align =>
      simp only [Exact, Arena.serve, Grows, wanted, forall_const]
      exact allocAligned_exact_iff hblock hpos
  | calloc nmemb size => exact exact_calloc_iff hblock hpos
  | realloc ptr oldSize newSize =>
      cases ptr with
      | none =>
          simp only [Exact, Arena.serve, akArenaRealloc, Grows, wanted, NoWrap, forall_const]
          by_cases hzero : newSize = 0
          · simp [hzero, AllocNoWrap]
          · rw [if_neg hzero]
            exact allocAligned_exact_iff hblock hpos
      | some ptr => exact exact_realloc_iff hblock hpos

end Requests

section Sessions

variable {s s' s₀ : Session} {chain : List Nat} {calls : List Call} {blockSize : Size}

theorem blockSize_step (h : SessionOk s chain) (hs : Step s calls s') : s'.arena.blockSize = s.arena.blockSize := by
  cases hs with
  | request request grant result arena hgrant hserve =>
      obtain ⟨block, hblock⟩ := h.chain.has_block
      cases serve_served hblock hserve with
      | refused | denied | kept | extended => rfl
      | taken _ _ _ _ took htook =>
          subst htook
          rfl
      | grown _ _ _ _ _ _ _ took htook =>
          subst htook
          rfl
  | reset arena hreset =>
      obtain ⟨blocks, heq, -⟩ := akArenaReset_spec h.chain
      obtain rfl := Option.some.inj (heq.symm.trans hreset)
      rfl
  | snapshot mark hsnapshot => rfl
  | restore mark taken arena hmark hrestore =>
      obtain ⟨arena', heq, hcases⟩ := akArenaRestore_spec h.chain (h.marks _ hmark)
      obtain rfl := Option.some.inj (heq.symm.trans hrestore)
      rcases hcases with rfl | ⟨-, blocks, totalUsed, rfl, -⟩ <;> rfl

theorem session_of_run (hfresh : Fresh blockSize s₀) (hrun : Run Step s₀ calls s) :
    (∃ chain, SessionOk s chain) ∧ s.arena.blockSize ≠ 0 := by
  apply hrun.invariant (P := fun _ s => (∃ chain, SessionOk s chain) ∧ s.arena.blockSize ≠ 0)
  · refine ⟨⟨[0], (SessionOk.start hfresh).1⟩, ?_⟩
    obtain ⟨granted, data, hnew, -⟩ := hfresh
    rw [akArenaNew] at hnew
    split_ifs at hnew with hzero
    simp only [allocateBlock, Option.map_some, bind, Option.bind, Option.some.injEq] at hnew
    rw [← hnew]
    exact hzero
  · rintro _ s _ s' ⟨⟨chain, hok⟩, hpos⟩ hs
    obtain ⟨chain', hok', -⟩ := hok.step hs
    refine ⟨⟨chain', hok'⟩, ?_⟩
    rwa [blockSize_step hok hs]

end Sessions

end Ak24.ArenaArithmetic
