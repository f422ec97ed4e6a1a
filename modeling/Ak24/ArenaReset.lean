import Ak24.ArenaArithmetic

namespace Ak24.ArenaReset

open ArenaModel ArenaChain ArenaLive Chains

inductive Ask
  | alloc (size : Size)
  | allocAligned (size align : Size)
  deriving DecidableEq, Repr

def Ask.size : Ask → Size
  | .alloc size | .allocAligned size _ => size

def Ask.align : Ask → Size
  | .alloc _ => defaultAlignment
  | .allocAligned _ align => align

def Ask.request : Ask → Request
  | .alloc size => .alloc size
  | .allocAligned size align => .allocAligned size align

def pass (arena : Arena) : List (Ask × Option Nat) → Option Arena
  | [] => some arena
  | (ask, grant) :: asks => do
    let (_, arena) ← arena.serve ask.request grant
    pass arena asks

def offered (grants : Nat → Option Nat) (asks : List Ask) : List (Ask × Option Nat) :=
  asks.mapIdx fun i ask => (ask, grants i)

/-- With `used` bytes taken of a block of `blockSize`, every request fits behind those
before it, or is refused a new block. -/
def FitsBlock (blockSize used : Size) : List (Ask × Option Nat) → Prop
  | [] => True
  | (ask, grant) :: asks =>
    if ask.size = 0 ∨ validAlign ask.align = false then FitsBlock blockSize used asks
    else if blockSize < used + (alignUp used ask.align - used + ask.size) then
      grant = none ∧ FitsBlock blockSize used asks
    else FitsBlock blockSize (alignUp used ask.align + ask.size) asks

def SameBlocks (arena arena' : Arena) : Prop :=
  arena'.blocks.length = arena.blocks.length ∧ arena'.totalAllocated = arena.totalAllocated

inductive Asked (arena : Arena) (block : ArenaBlock) (ask : Ask) (grant : Option Nat) : Arena → Prop
  | refused (h : ask.size = 0 ∨ validAlign ask.align = false) : Asked arena block ask grant arena
  | denied (hvalid : ¬(ask.size = 0 ∨ validAlign ask.align = false))
    (hroom : block.lacksRoom ask.size ask.align = true) (hgrant : grant = none) :
    Asked arena block ask grant { arena with nextBlockNum := arena.nextBlockNum + 1 }
  | taken (hvalid : ¬(ask.size = 0 ∨ validAlign ask.align = false))
    (hroom : block.lacksRoom ask.size ask.align = false) :
    Asked arena block ask grant
      (arena.take block (alignUp block.used ask.align) (block.needed ask.size ask.align) ask.size).2
  | grown (hvalid : ¬(ask.size = 0 ∨ validAlign ask.align = false))
    (hroom : block.lacksRoom ask.size ask.align = true) (newBlock : ArenaBlock) (hnext : newBlock.next = none)
    (hgrant : grant ≠ none) :
    Asked arena block ask grant ((arena.grow block newBlock).take newBlock 0 ask.size ask.size).2

section Passes

variable {arena arena' : Arena} {block : ArenaBlock} {ask : Ask} {grant : Option Nat} {chain : List Nat}
  {asks : List (Ask × Option Nat)}

theorem serve_asked (hblock : arena.blocks[arena.currentBlock]? = some block) (ask : Ask) (grant : Option Nat) :
    ∃ ptr arena', arena.serve ask.request grant = some (ptr, arena') ∧ Asked arena block ask grant arena' := by
  have hserve : arena.serve ask.request grant = akArenaAllocAligned arena ask.size ask.align grant := by
    cases ask <;> rfl
  rw [hserve, akArenaAllocAligned]
  by_cases hzero : ask.size = 0
  · exact ⟨none, arena, if_pos hzero, .refused (.inl hzero)⟩
  rw [if_neg hzero]
  by_cases halign : validAlign ask.align = true
  swap
  · rw [Bool.not_eq_true] at halign
    exact ⟨none, arena, by rw [halign]; rfl, .refused (.inr halign)⟩
  have hvalid : ¬(ask.size = 0 ∨ validAlign ask.align = false) := by
    rw [halign]
    simpa using hzero
  simp only [halign, hblock, bind, Option.bind, Bool.not_true, Bool.false_eq_true, if_false]
  by_cases hroom : block.lacksRoom ask.size ask.align = true
  · rw [if_pos hroom]
    cases grant with
    | none => exact ⟨none, _, rfl, .denied hvalid hroom rfl⟩
    | some data => exact ⟨_, _, rfl, .grown hvalid hroom _ rfl (Option.some_ne_none data)⟩
  · rw [if_neg hroom]
    exact ⟨_, _, rfl, .taken hvalid ((Bool.not_eq_true _).mp hroom)⟩

theorem Asked.chainOk (h : ChainOk arena chain) (hblock : arena.blocks[arena.currentBlock]? = some block)
    (ha : Asked arena block ask grant arena') : ∃ chain', ChainOk arena' chain' := by
  cases ha with
  | refused => exact ⟨chain, h⟩
  | denied => exact ⟨chain, h.reshape rfl rfl h.current⟩
  | taken => exact ⟨chain, h.reshape (take_shape hblock _ _ _) rfl h.current⟩
  | grown hvalid hroom newBlock hnext =>
      obtain ⟨pre, post, rfl⟩ := List.append_of_mem h.current
      have hgrown : ChainOk (arena.grow block newBlock) _ := h.grow hnext
      exact ⟨_, hgrown.reshape (take_shape (grow_current arena block newBlock) _ _ _) rfl hgrown.current⟩

theorem Asked.sizes (hblock : arena.blocks[arena.currentBlock]? = some block)
    (ha : Asked arena block ask grant arena') :
    arena.blocks.map ArenaBlock.size <+: arena'.blocks.map ArenaBlock.size ∧ arena'.firstBlock = arena.firstBlock := by
  cases ha with
  | refused | denied => exact ⟨List.prefix_rfl, rfl⟩
  | taken =>
      refine ⟨?_, rfl⟩
      show _ <+: (arena.blocks.set arena.currentBlock _).map ArenaBlock.size
      rw [map_set_of_eq ArenaBlock.size hblock]
      rfl
  | grown hvalid hroom newBlock hnext =>
      have hgrown : (arena.grow block newBlock).blocks.map ArenaBlock.size =
          arena.blocks.map ArenaBlock.size ++ [newBlock.size] := by
        rw [Arena.grow, List.map_append, map_set_of_eq ArenaBlock.size hblock]
        · rfl
        · rfl
      refine ⟨?_, rfl⟩
      show _ <+: ((arena.grow block newBlock).blocks.set (arena.grow block newBlock).currentBlock _).map ArenaBlock.size
      rw [map_set_of_eq ArenaBlock.size (grow_current arena block newBlock), hgrown]
      · exact List.prefix_append _ _
      · rfl

theorem pass_ok (h : ChainOk arena chain) (asks : List (Ask × Option Nat)) :
    ∃ arena' chain', pass arena asks = some arena' ∧ ChainOk arena' chain' ∧
      arena.blocks.map ArenaBlock.size <+: arena'.blocks.map ArenaBlock.size ∧
      arena'.firstBlock = arena.firstBlock := by
  induction asks generalizing arena chain with
  | nil => exact ⟨arena, chain, rfl, h, List.prefix_rfl, rfl⟩
  | cons asked asks ih =>
      obtain ⟨ask, grant⟩ := asked
      obtain ⟨block, hblock⟩ := h.has_block
      obtain ⟨ptr, next, hserve, ha⟩ := serve_asked hblock ask grant
      obtain ⟨chain', h'⟩ := ha.chainOk h hblock
      obtain ⟨hsizes, hfirst⟩ := ha.sizes hblock
      obtain ⟨arena', chain'', hpass, hok, hsizes', hfirst'⟩ := ih h'
      refine ⟨arena', chain'', ?_, hok, hsizes.trans hsizes', hfirst'.trans hfirst⟩
      simp only [pass, hserve, bind, Option.bind]
      exact hpass

theorem pass_same_iff (h : ChainOk arena chain) (hblock : arena.blocks[arena.currentBlock]? = some block)
    (hpass : pass arena asks = some arena') : SameBlocks arena arena' ↔ FitsBlock block.size block.used asks := by
  induction asks generalizing arena chain block with
  | nil =>
      cases hpass
      exact ⟨fun _ => trivial, fun _ => ⟨rfl, rfl⟩⟩
  | cons asked asks ih =>
      obtain ⟨ask, grant⟩ := asked
      obtain ⟨ptr, next, hserve, ha⟩ := serve_asked hblock ask grant
      obtain ⟨chain', h'⟩ := ha.chainOk h hblock
      simp only [pass, hserve, bind, Option.bind] at hpass
      cases ha with
      | refused hinvalid =>
          rw [FitsBlock, if_pos hinvalid]
          exact ih h hblock hpass
      | denied hvalid hroom hgrant =>
          have hlack : block.size < block.used + (alignUp block.used ask.align - block.used + ask.size) :=
            of_decide_eq_true hroom
          rw [FitsBlock, if_neg hvalid, if_pos hlack, ← ih h' hblock hpass]
          exact ⟨fun hsame => ⟨hgrant, hsame⟩, fun hsame => hsame.2⟩
      | taken hvalid hroom =>
          have hroomy : ¬block.size < block.used + (alignUp block.used ask.align - block.used + ask.size) :=
            of_decide_eq_false hroom
          have hiff := ih h' (set_found hblock) hpass
          rw [FitsBlock, if_neg hvalid, if_neg hroomy, ← hiff, SameBlocks, SameBlocks, Arena.take, List.length_set]
      | grown hvalid hroom newBlock hnext hgrant =>
          have hlack : block.size < block.used + (alignUp block.used ask.align - block.used + ask.size) :=
            of_decide_eq_true hroom
          rw [FitsBlock, if_neg hvalid, if_pos hlack]
          refine ⟨fun hsame => ?_, fun hfits => absurd hfits.1 hgrant⟩
          obtain ⟨_, _, hpass', -, hsizes, -⟩ := pass_ok h' asks
          obtain rfl := Option.some.inj (hpass.symm.trans hpass')
          have hlength := hsizes.length_le
          simp only [Arena.take, Arena.grow, List.length_map, List.length_set, List.length_append,
            List.length_singleton] at hlength
          have hlast := hsame.1
          omega

end Passes

section Resets

variable {arena : Arena} {chain : List Nat}

theorem akArenaReset_first (h : ChainOk arena chain) :
    ∃ arena' block, akArenaReset arena = some arena' ∧ ChainOk arena' chain ∧
      arena'.blocks[arena'.currentBlock]? = some block ∧ block.used = 0 ∧
      (arena.blocks[arena.firstBlock]?).map ArenaBlock.size = some block.size ∧ SameBlocks arena arena' := by
  obtain ⟨blocks, hreset, hcleared⟩ := akArenaReset_spec h
  have hlength := length_congr hcleared.shapes
  obtain ⟨block, hblock⟩ : ∃ block, blocks[arena.firstBlock]? = some block := by
    apply exists_block
    rw [hlength]
    exact h.bounded _ h.first
  obtain ⟨old, hold, -, hsize⟩ := exists_of_shape hcleared.shapes hblock
  refine ⟨_, block, hreset, h.reshape hcleared.shapes rfl h.first, hblock, ?_, ?_, hlength, rfl⟩
  · rw [← usedAt_of_get hblock]
    exact hcleared.zero _ h.first
  · rw [hold, Option.map_some, hsize]

end Resets

/-- A sequence of requests is made of a new arena, and once more after a reset. The
second pass obtains no block exactly when all that it is given fits into the first one. -/
theorem reset_reuses_iff (blockSize : Size) (granted : Bool) (data : Nat) (arena : Arena)
    (hnew : akArenaNew blockSize granted (some data) = some arena) (asks : List Ask)
    (grants grants' : Nat → Option Nat) :
    ∃ first cleared second, pass arena (offered grants asks) = some first ∧ akArenaReset first = some cleared ∧
      pass cleared (offered grants' asks) = some second ∧
      (SameBlocks first second ↔ FitsBlock blockSize 0 (offered grants' asks)) := by
  have harena : arena.blocks = [⟨data, blockSize, 0, 0, none⟩] ∧ arena.firstBlock = 0 ∧ arena.currentBlock = 0 := by
    rw [akArenaNew] at hnew
    split_ifs at hnew
    simp only [allocateBlock, Option.map_some, bind, Option.bind, Option.some.injEq] at hnew
    rw [← hnew]
    exact ⟨rfl, rfl, rfl⟩
  obtain ⟨hblocks, hfirst, hcurrent⟩ := harena
  have hchain : ChainOk arena [0] :=
    ⟨by rw [hblocks, hfirst]; exact ⟨rfl, rfl⟩, by simp [hcurrent], by simp, by simp [hblocks]⟩
  obtain ⟨first, chain, hpass, hok, hsizes, hsame⟩ := pass_ok hchain (offered grants asks)
  obtain ⟨cleared, block, hreset, hok', hblock, hused, hsize, hkept⟩ := akArenaReset_first hok
  obtain ⟨second, -, hpass', -⟩ := pass_ok hok' (offered grants' asks)
  refine ⟨first, cleared, second, hpass, hreset, hpass', ?_⟩
  have hblockSize : block.size = blockSize := by
    obtain ⟨rest, hrest⟩ := hsizes
    rw [hsame, hfirst, ← List.getElem?_map, ← hrest, hblocks] at hsize
    exact (Option.some.inj hsize).symm
  rw [← hblockSize, ← hused, ← pass_same_iff hok' hblock hpass', SameBlocks, SameBlocks, hkept.1, hkept.2]

/-- Two small requests that fit into one block, before and after the reset. -/
theorem small_requests_reuse : ∃ first cleared second,
    pass oneBlock.arena [(.alloc 16, none), (.allocAligned 16 32, none)] = some first ∧
      akArenaReset first = some cleared ∧
      pass cleared [(.alloc 16, none), (.allocAligned 16 32, none)] = some second ∧ SameBlocks first second := by
  obtain ⟨first, cleared, second, hfirst, hcleared, hsecond, hiff⟩ := reset_reuses_iff 64 true 4096 oneBlock.arena rfl
    [.alloc 16, .allocAligned 16 32] (fun _ => none) (fun _ => none)
  refine ⟨first, cleared, second, hfirst, hcleared, hsecond, hiff.mpr ?_⟩
  simp [offered, FitsBlock]

/-- Two requests that need two blocks get a third one after the reset. -/
theorem reset_obtains_block : ∃ first cleared second, akArenaNew 64 true (some 4096) = some oneBlock.arena ∧
    pass oneBlock.arena (offered (fun _ => some 8192) [.alloc 40, .alloc 40]) = some first ∧
      akArenaReset first = some cleared ∧
      pass cleared (offered (fun _ => some 12288) [.alloc 40, .alloc 40]) = some second ∧
      first.totalAllocated = 128 ∧ second.totalAllocated = 192 :=
  ⟨_, _, _, rfl, rfl, rfl, rfl, rfl, rfl⟩

end Ak24.ArenaReset
