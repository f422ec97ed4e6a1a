import Ak24.ArenaChain
import Ak24.Words

namespace Ak24.ArenaLive

open ArenaModel ArenaChain Regions Chains Transition Words

section Arithmetic

variable {align size : Size} {block : ArenaBlock} {arena : Arena}

theorem alignUp_bounds (value : Size) (hpos : align ≠ 0) (h : value.toNat + align.toNat ≤ 2 ^ 64) :
    value.toNat ≤ (alignUp value align).toNat ∧ (alignUp value align).toNat < value.toNat + align.toNat := by
  have halign : 0 < align.toNat := by
    rw [Nat.pos_iff_ne_zero]
    exact fun h0 => hpos (BitVec.eq_of_toNat_eq h0)
  have hone : (1 : Size).toNat = 1 := rfl
  have hmask : (align - 1).toNat = align.toNat - 1 := by
    rw [BitVec.toNat_sub_of_le (by rw [BitVec.le_def]; omega), hone]
  have hsum : (value + align - 1).toNat = value.toNat + align.toNat - 1 := by
    have hassoc : value + align - 1 = value + (align - 1) := by
      rw [BitVec.sub_eq_add_neg, BitVec.sub_eq_add_neg, BitVec.add_assoc]
    rw [hassoc, BitVec.toNat_add_of_lt (by omega), hmask]
    omega
  have hsplit := and_add_and_not_toNat (value + align - 1) (align - 1)
  have hlow : (value + align - 1 &&& (align - 1)).toNat ≤ (align - 1).toNat := by
    rw [BitVec.toNat_and]
    exact Nat.and_le_right
  rw [alignUp]
  omega

theorem lacksRoom_false (hpos : align ≠ 0) (hused : block.used.toNat < 2 ^ 63) (halign : align.toNat < 2 ^ 62)
    (hsize : size.toNat < 2 ^ 62) (h : block.lacksRoom size align = false) :
    block.used.toNat ≤ (alignUp block.used align).toNat ∧
      (alignUp block.used align + size).toNat = (alignUp block.used align).toNat + size.toNat ∧
      (alignUp block.used align).toNat + size.toNat ≤ block.size.toNat := by
  obtain ⟨hle, hlt⟩ := alignUp_bounds block.used hpos (by omega)
  have hneeded : (block.needed size align).toNat = (alignUp block.used align).toNat - block.used.toNat + size.toNat := by
    rw [ArenaBlock.needed, BitVec.toNat_add_of_lt, BitVec.toNat_sub_of_le (by rwa [BitVec.le_def])]
    rw [BitVec.toNat_sub_of_le (by rwa [BitVec.le_def])]
    omega
  have htotal : (block.used + block.needed size align).toNat = (alignUp block.used align).toNat + size.toNat := by
    rw [BitVec.toNat_add_of_lt (by omega), hneeded]
    omega
  rw [ArenaBlock.lacksRoom, decide_eq_false_iff_not, BitVec.not_lt, BitVec.le_def, htotal] at h
  exact ⟨hle, BitVec.toNat_add_of_lt (by omega), h⟩

theorem extends_true {ptr : Nat} {oldSize newSize : Size} (hlt : oldSize < newSize) (hused : block.used.toNat < 2 ^ 63)
    (hsize : newSize.toNat < 2 ^ 62) (h : block.extends ptr oldSize newSize = true) :
    ptr + oldSize.toNat = block.data + block.used.toNat ∧
      (block.used + (newSize - oldSize)).toNat = block.used.toNat + (newSize.toNat - oldSize.toNat) ∧
      (block.used + (newSize - oldSize)).toNat ≤ block.size.toNat := by
  rw [ArenaBlock.extends, decide_eq_true_eq, BitVec.le_def] at h
  rw [BitVec.lt_def] at hlt
  have hmore : (newSize - oldSize).toNat = newSize.toNat - oldSize.toNat :=
    BitVec.toNat_sub_of_le (by rw [BitVec.le_def]; omega)
  refine ⟨h.1, ?_, h.2⟩
  rw [BitVec.toNat_add_of_lt (by omega), hmore]

theorem newBlockSize_bounds (hpos : arena.blockSize ≠ 0) (hblock : arena.blockSize.toNat < 2 ^ 62)
    (hsize : size.toNat < 2 ^ 62) :
    size.toNat ≤ (arena.newBlockSize size).toNat ∧ (arena.newBlockSize size).toNat < 2 ^ 63 := by
  rw [Arena.newBlockSize]
  split_ifs with hlt
  · obtain ⟨hle, hub⟩ := alignUp_bounds size hpos (by omega)
    exact ⟨hle, by omega⟩
  · rw [BitVec.not_lt, BitVec.le_def] at hlt
    exact ⟨hlt, by omega⟩

end Arithmetic

/-- The allocation lies in the used part of a block on the chain, not beyond the
current one. -/
structure Fits (arena : Arena) (chain : List Nat) (a : Allocation) (block : ArenaBlock) : Prop where
  found : arena.blocks[a.block]? = some block
  chain : a.block ∈ chain
  current : a.block ≤ arena.currentBlock
  pos : 0 < a.size.toNat
  lower : block.data ≤ a.start
  upper : a.start + a.size.toNat ≤ block.data + block.used.toNat

structure MarkOk (s : Session) (mark : Mark) (taken : Nat) : Prop where
  past : taken < s.clock
  offset : ∀ block, s.arena.blocks[mark.block]? = some block → mark.offset.toNat ≤ block.size.toNat
  empty : mark.offset = 0 → ∀ a ∈ s.live, taken ≤ a.born
  before : ∀ a ∈ s.live, a.born < taken → a.block ≤ mark.block

structure LiveOk (s : Session) (chain : List Nat) : Prop where
  session : SessionOk s chain
  blockSize : s.arena.blockSize ≠ 0 ∧ s.arena.blockSize.toNat < 2 ^ 62
  used : ∀ block ∈ s.arena.blocks, block.used.toNat ≤ block.size.toNat ∧ block.size.toNat < 2 ^ 63
  place : ∀ a ∈ s.live, ∃ block, Fits s.arena chain a block
  apart : s.live.Pairwise fun a b => a.region.Apart b.region
  empty : ∀ block, s.arena.blocks[s.arena.currentBlock]? = some block → block.used = 0 → s.live = []
  born : ∀ a ∈ s.live, a.born < s.clock
  marks : ∀ mark taken, (mark, taken) ∈ s.marks → MarkOk s mark taken

section Invariant

variable {s : Session} {chain chain' : List Nat} {arena : Arena} {live : List Allocation} {block : ArenaBlock}
  {a b : Allocation}

theorem BlocksOk.apart_of_ne (h : BlocksOk arena) {i j : Nat} {bi bj : ArenaBlock} (hi : arena.blocks[i]? = some bi)
    (hj : arena.blocks[j]? = some bj) (hij : i ≠ j) : bi.region.Apart bj.region := by
  have hpair := List.pairwise_map.mp h.apart
  rw [List.pairwise_iff_getElem] at hpair
  obtain ⟨hilt, rfl⟩ := List.getElem?_eq_some_iff.mp hi
  obtain ⟨hjlt, rfl⟩ := List.getElem?_eq_some_iff.mp hj
  rcases Nat.lt_or_gt_of_ne hij with hlt | hgt
  · exact hpair i j hilt hjlt hlt
  · exact (hpair j i hjlt hilt hgt).symm

theorem Fits.block_eq {id : Nat} {current : ArenaBlock} (h : Fits arena chain a block)
    (hcurrent : arena.blocks[id]? = some current) (hid : a.block = id) : current = block := by
  have hfound := h.found
  rw [hid, hcurrent] at hfound
  exact Option.some.inj hfound

theorem LiveOk.inside (h : LiveOk s chain) (hfits : Fits s.arena chain a block) : a.region.Inside block.region := by
  have hused := (h.used block (List.mem_of_getElem? hfits.found)).1
  refine ⟨hfits.lower, ?_⟩
  have hupper := hfits.upper
  simp only [Region.stop, Allocation.region, ArenaBlock.region]
  omega

theorem LiveOk.eq_of_start (h : LiveOk s chain) (ha : a ∈ s.live) (hb : b ∈ s.live) (hstart : a.start = b.start) :
    a = b := by
  by_contra hne
  have hsymm : Std.Symm fun a b : Allocation => a.region.Apart b.region := ⟨fun _ _ hap => hap.symm⟩
  have hapart := h.apart.forall ha hb hne
  obtain ⟨_, hfa⟩ := h.place a ha
  obtain ⟨_, hfb⟩ := h.place b hb
  have hpa := hfa.pos
  have hpb := hfb.pos
  simp only [Region.Apart, Region.stop, Allocation.region] at hapart
  omega

def Heirs (s : Session) (live : List Allocation) : Prop :=
  ∀ a ∈ live, a.born = s.clock ∨ ∃ b ∈ s.live, b.born = a.born ∧ b.block = a.block

theorem LiveOk.next (h : LiveOk s chain) (hsession : SessionOk ⟨arena, live, s.marks, s.clock + 1⟩ chain')
    (hsize : arena.blockSize = s.arena.blockSize)
    (hused : ∀ block ∈ arena.blocks, block.used.toNat ≤ block.size.toNat ∧ block.size.toNat < 2 ^ 63)
    (hregions : ∀ id < s.arena.blocks.length,
      (arena.blocks[id]?).map ArenaBlock.region = (s.arena.blocks[id]?).map ArenaBlock.region)
    (hplace : ∀ a ∈ live, ∃ block, Fits arena chain' a block)
    (hapart : live.Pairwise fun a b => a.region.Apart b.region)
    (hempty : ∀ block, arena.blocks[arena.currentBlock]? = some block → block.used = 0 → live = [])
    (hheirs : Heirs s live) : LiveOk ⟨arena, live, s.marks, s.clock + 1⟩ chain' where
  session := hsession
  blockSize := by
    rw [hsize]
    exact h.blockSize
  used := hused
  place := hplace
  apart := hapart
  empty := hempty
  born := by
    intro a ha
    show a.born < s.clock + 1
    rcases hheirs a ha with hnew | ⟨b, hb, hborn, -⟩
    · omega
    · have := h.born b hb
      omega
  marks := by
    intro mark taken hmark
    have hold := h.marks mark taken hmark
    refine ⟨?_, ?_, ?_, ?_⟩
    · exact Nat.lt_succ_of_lt hold.past
    · intro block hblock
      obtain ⟨old, hblock'⟩ := exists_block (h.session.marks _ hmark)
      have hregion := hregions _ (h.session.marks _ hmark)
      rw [hblock, hblock', Option.map_some, Option.map_some, Option.some.injEq] at hregion
      have hoffset := hold.offset old hblock'
      have hsizes := congrArg Region.size hregion
      simp only [ArenaBlock.region] at hsizes
      omega
    · intro hzero a ha
      rcases hheirs a ha with hnew | ⟨b, hb, hborn, -⟩
      · have := hold.past
        omega
      · rw [← hborn]
        exact hold.empty hzero b hb
    · intro a ha hlt
      rcases hheirs a ha with hnew | ⟨b, hb, hborn, hblock⟩
      · have := hold.past
        omega
      · rw [← hblock]
        exact hold.before b hb (by omega)

theorem Fits.carry {arena' : Arena} {block' : ArenaBlock} (h : Fits arena chain a block)
    (hfound : arena'.blocks[a.block]? = some block') (hdata : block'.data = block.data)
    (hused : block.used.toNat ≤ block'.used.toNat) (hchain : a.block ∈ chain') (hcurrent : a.block ≤ arena'.currentBlock) :
    Fits arena' chain' a block' := by
  have hlower := h.lower
  have hupper := h.upper
  exact ⟨hfound, hchain, hcurrent, h.pos, by omega, by omega⟩

theorem Fits.raise {arena' : Arena} {current : ArenaBlock} {used : Size} (h : Fits arena chain a block)
    (hcurrent : arena.blocks[arena.currentBlock]? = some current) (hle : current.used.toNat ≤ used.toNat)
    (hblocks : arena'.blocks = arena.blocks.set arena.currentBlock { current with used })
    (hsame : arena'.currentBlock = arena.currentBlock) : ∃ block', Fits arena' chain a block' := by
  have hbound : a.block ≤ arena'.currentBlock := by
    rw [hsame]
    exact h.current
  by_cases hblock : a.block = arena.currentBlock
  · obtain rfl := h.block_eq hcurrent hblock
    refine ⟨{ current with used }, h.carry ?_ rfl hle h.chain hbound⟩
    rw [hblocks, hblock, List.getElem?_set_self (List.getElem?_eq_some_iff.mp hcurrent).1]
  · refine ⟨block, h.carry ?_ rfl le_rfl h.chain hbound⟩
    rw [hblocks, List.getElem?_set_ne (Ne.symm hblock), h.found]

theorem LiveOk.apart_of_unused (h : LiveOk s chain) {r : Region} {current : ArenaBlock}
    (hcurrent : s.arena.blocks[s.arena.currentBlock]? = some current)
    (hlower : current.data + current.used.toNat ≤ r.start) (hinside : r.Inside current.region) (ha : a ∈ s.live) :
    r.Apart a.region := by
  obtain ⟨block, hfits⟩ := h.place a ha
  by_cases hblock : a.block = s.arena.currentBlock
  · obtain rfl := hfits.block_eq hcurrent hblock
    exact .inr (hfits.upper.trans hlower)
  · exact (BlocksOk.apart_of_ne h.session.blocks hcurrent hfits.found (Ne.symm hblock)).inside hinside
      (h.inside hfits)

theorem recordResult_fresh (live : List Allocation) (id clock : Nat) {request : Request} {start : Nat}
    (hmoved : ∀ ptr oldSize newSize, request = .realloc (some ptr) oldSize newSize → start ≠ ptr) :
    ∃ kept, recordResult live request (some start) id clock = ⟨start, request.bytes, id, clock⟩ :: kept ∧
      kept.Sublist live := by
  cases request with
  | alloc size => exact ⟨live, rfl, List.Sublist.refl _⟩
  | allocAligned size align => exact ⟨live, rfl, List.Sublist.refl _⟩
  | calloc nmemb size => exact ⟨live, rfl, List.Sublist.refl _⟩
  | realloc ptr oldSize newSize =>
      cases ptr with
      | none => exact ⟨live, rfl, List.Sublist.refl _⟩
      | some ptr =>
          refine ⟨live.filter fun a => a.start ≠ ptr, ?_, List.filter_sublist⟩
          rw [recordResult, if_neg (hmoved ptr oldSize newSize rfl)]
          rfl

theorem LiveOk.add (h : LiveOk s chain) (block : ArenaBlock) {request : Request} {start : Nat}
    (hsession : ∀ live, SessionOk ⟨arena, live, s.marks, s.clock + 1⟩ chain')
    (hsize : arena.blockSize = s.arena.blockSize)
    (hused : ∀ block ∈ arena.blocks, block.used.toNat ≤ block.size.toNat ∧ block.size.toNat < 2 ^ 63)
    (hregions : ∀ id < s.arena.blocks.length,
      (arena.blocks[id]?).map ArenaBlock.region = (s.arena.blocks[id]?).map ArenaBlock.region)
    (hold : ∀ a ∈ s.live, ∃ block, Fits arena chain' a block)
    (hnew : Fits arena chain' ⟨start, request.bytes, arena.currentBlock, s.clock⟩ block)
    (hapart : ∀ a ∈ s.live, Region.Apart ⟨start, request.bytes.toNat⟩ a.region)
    (hsource : ∀ ptr oldSize newSize, request = .realloc (some ptr) oldSize newSize → ∃ a ∈ s.live, a.start = ptr) :
    LiveOk ⟨arena, recordResult s.live request (some start) arena.currentBlock s.clock, s.marks, s.clock + 1⟩ chain' := by
  have hpos : 0 < request.bytes.toNat := hnew.pos
  have hmoved : ∀ ptr oldSize newSize, request = .realloc (some ptr) oldSize newSize → start ≠ ptr := by
    rintro ptr oldSize newSize hrequest rfl
    obtain ⟨a, ha, hstart⟩ := hsource start oldSize newSize hrequest
    obtain ⟨_, hfits⟩ := h.place a ha
    have hposa := hfits.pos
    have hap := hapart a ha
    simp only [Region.Apart, Region.stop, Allocation.region] at hap
    omega
  obtain ⟨kept, heq, hsub⟩ := recordResult_fresh s.live arena.currentBlock s.clock hmoved
  rw [heq]
  refine h.next (hsession _) hsize hused hregions ?_ ?_ ?_ ?_
  · intro a ha
    rcases List.mem_cons.mp ha with rfl | ha
    · exact ⟨block, hnew⟩
    · exact hold a (hsub.subset ha)
  · refine List.pairwise_cons.mpr ⟨fun a ha => hapart a (hsub.subset ha), h.apart.sublist hsub⟩
  · intro current hcurrent hzero
    obtain rfl : block = current := Option.some.inj (hnew.found.symm.trans hcurrent)
    have hlower : block.data ≤ start := hnew.lower
    have hupper : start + request.bytes.toNat ≤ block.data + block.used.toNat := hnew.upper
    rw [hzero] at hupper
    simp only [BitVec.ofNat_eq_ofNat, BitVec.toNat_zero] at hupper
    omega
  · intro a ha
    rcases List.mem_cons.mp ha with rfl | ha
    · exact .inl rfl
    · exact .inr ⟨a, hsub.subset ha, rfl, rfl⟩

theorem LiveOk.resize (h : LiveOk s chain) (block : ArenaBlock) {ptr : Nat} {oldSize newSize : Size}
    {source : Allocation}
    (hsession : ∀ live, SessionOk ⟨arena, live, s.marks, s.clock + 1⟩ chain)
    (hsize : arena.blockSize = s.arena.blockSize)
    (hused : ∀ block ∈ arena.blocks, block.used.toNat ≤ block.size.toNat ∧ block.size.toNat < 2 ^ 63)
    (hregions : ∀ id < s.arena.blocks.length,
      (arena.blocks[id]?).map ArenaBlock.region = (s.arena.blocks[id]?).map ArenaBlock.region)
    (hold : ∀ a ∈ s.live, ∃ block, Fits arena chain a block)
    (hempty : ∀ block, arena.blocks[arena.currentBlock]? = some block → block.used = 0 → s.live = [])
    (hsource : source ∈ s.live) (hstart : source.start = ptr)
    (hnew : Fits arena chain { source with size := newSize } block)
    (hapart : ∀ a ∈ s.live, a.region.Apart source.region → Region.Apart ⟨ptr, newSize.toNat⟩ a.region) :
    LiveOk ⟨arena, recordResult s.live (.realloc (some ptr) oldSize newSize) (some ptr) arena.currentBlock s.clock,
      s.marks, s.clock + 1⟩ chain := by
  have honly : ∀ a ∈ s.live, a.start = ptr → a = source := fun a ha hap =>
    h.eq_of_start ha hsource (hap.trans hstart.symm)
  have hregion : Allocation.region { source with size := newSize } = ⟨ptr, newSize.toNat⟩ := by rw [← hstart]; rfl
  rw [recordResult, if_pos rfl]
  refine h.next (hsession _) hsize hused hregions ?_ ?_ ?_ ?_
  · intro a ha
    obtain ⟨b, hb, rfl⟩ := List.mem_map.mp ha
    split_ifs with hptr
    · obtain rfl := honly b hb hptr
      exact ⟨block, hnew⟩
    · exact hold b hb
  · rw [List.pairwise_map]
    refine List.Pairwise.imp_of_mem ?_ h.apart
    intro a b ha hb hab
    split_ifs with hptra hptrb hptrb
    · obtain rfl := honly a ha hptra
      obtain rfl := honly b hb hptrb
      obtain ⟨_, hfits⟩ := h.place b hb
      have hpos := hfits.pos
      simp only [Region.Apart, Region.stop, Allocation.region] at hab
      omega
    · obtain rfl := honly a ha hptra
      rw [hregion]
      exact hapart b hb hab.symm
    · obtain rfl := honly b hb hptrb
      rw [hregion]
      exact (hapart a ha hab).symm
    · exact hab
  · intro current hcurrent hzero
    rw [hempty current hcurrent hzero, List.map_nil]
  · intro a ha
    obtain ⟨b, hb, rfl⟩ := List.mem_map.mp ha
    refine .inr ⟨b, hb, ?_⟩
    split_ifs <;> exact ⟨rfl, rfl⟩

end Invariant

/-- The sizes and alignments the arena is meant for. -/
def Small : Request → Prop
  | .alloc size => size.toNat < 2 ^ 62
  | .allocAligned size align => size.toNat < 2 ^ 62 ∧ align.toNat < 2 ^ 62
  | .calloc nmemb size => nmemb.toNat * size.toNat < 2 ^ 62 ∨ 2 ^ 64 ≤ nmemb.toNat * size.toNat
  | .realloc _ _ newSize => newSize.toNat < 2 ^ 62

def Proper (s : Session) : Call → Prop
  | .request request _ => Small request ∧ ∀ ptr oldSize newSize, request = .realloc (some ptr) oldSize newSize →
      ∃ a ∈ s.live, a.start = ptr ∧ a.size = oldSize
  | _ => True

def RestoresWhole (s : Session) : Call → Prop
  | .restore mark taken => ∀ block, s.arena.blocks[mark.block]? = some block → ∀ a ∈ s.live, a.born < taken →
      a.block = mark.block → a.start + a.size.toNat ≤ block.data + mark.offset.toNat
  | _ => True

section Steps

variable {s s' s₀ : Session} {chain : List Nat} {calls : List Call}

theorem small_bytes {request : Request} (h : Small request) (hexact : exact request) :
    request.bytes.toNat < 2 ^ 62 ∧ (alignOf request).toNat < 2 ^ 62 := by
  have hdefault : defaultAlignment.toNat < 2 ^ 62 := by decide
  cases request with
  | alloc size => exact ⟨h, hdefault⟩
  | allocAligned size align => exact h
  | calloc nmemb size =>
      refine ⟨?_, hdefault⟩
      have hlt : nmemb.toNat * size.toNat < 2 ^ 64 := hexact
      rw [Request.bytes, BitVec.toNat_mul, Nat.mod_eq_of_lt hlt]
      rcases h with h | h
      · exact h
      · omega
  | realloc ptr oldSize newSize => exact ⟨h, hdefault⟩

theorem regions_get {blocks blocks' : List ArenaBlock} (h : blocks'.map shape = blocks.map shape) (id : Nat) :
    (blocks'[id]?).map ArenaBlock.region = (blocks[id]?).map ArenaBlock.region := by
  rw [← List.getElem?_map, ← List.getElem?_map, regions_congr h]

theorem LiveOk.subset {arena : Arena} {live : List Allocation} (h : LiveOk s chain)
    (hblocks : arena.blocks = s.arena.blocks) (hfirst : arena.firstBlock = s.arena.firstBlock)
    (hcurrent : arena.currentBlock = s.arena.currentBlock) (hsize : arena.blockSize = s.arena.blockSize)
    (htotal : arena.totalAllocated = s.arena.totalAllocated) (hsub : live.Sublist s.live) :
    LiveOk ⟨arena, live, s.marks, s.clock + 1⟩ chain := by
  have hsession : SessionOk ⟨arena, live, s.marks, s.clock + 1⟩ chain :=
    h.session.reshape (by rw [hblocks]) hfirst htotal (by rw [hcurrent]; exact h.session.chain.current)
  refine h.next hsession hsize ?_ (fun id _ => by rw [hblocks]) ?_ (h.apart.sublist hsub) ?_ ?_
  · rw [hblocks]
    exact h.used
  · intro a ha
    obtain ⟨block, hfits⟩ := h.place a (hsub.subset ha)
    refine ⟨block, hfits.carry ?_ rfl le_rfl hfits.chain ?_⟩
    · rw [hblocks, hfits.found]
    · rw [hcurrent]
      exact hfits.current
  · intro block hblock hzero
    rw [hblocks, hcurrent] at hblock
    have hnil := h.empty block hblock hzero
    rw [hnil] at hsub
    exact List.sublist_nil.mp hsub
  · exact fun a ha => .inr ⟨a, hsub.subset ha, rfl, rfl⟩

theorem LiveOk.block_of_stop {a : Allocation} {block : ArenaBlock} (h : LiveOk s chain) (ha : a ∈ s.live)
    (hblock : s.arena.blocks[s.arena.currentBlock]? = some block)
    (hstop : a.start + a.size.toNat = block.data + block.used.toNat) : a.block = s.arena.currentBlock := by
  obtain ⟨own, hfits⟩ := h.place a ha
  have hpos := hfits.pos
  have hlower := hfits.lower
  have hinside := (h.inside hfits).2
  have hused := (h.used block (List.mem_of_getElem? hblock)).1
  have hnonzero : block.used.toNat ≠ 0 := by
    intro hzero
    have hnil := h.empty block hblock (BitVec.eq_of_toNat_eq hzero)
    rw [hnil] at ha
    exact List.not_mem_nil ha
  by_contra hne
  have hapart := BlocksOk.apart_of_ne h.session.blocks hfits.found hblock hne
  simp only [Region.Apart, Region.stop, Allocation.region, ArenaBlock.region] at hapart hinside
  omega

theorem LiveOk.used_set {block : ArenaBlock} {used : Size} (h : LiveOk s chain)
    (hblock : s.arena.blocks[s.arena.currentBlock]? = some block) (hused : used.toNat ≤ block.size.toNat) :
    ∀ b ∈ s.arena.blocks.set s.arena.currentBlock { block with used },
      b.used.toNat ≤ b.size.toNat ∧ b.size.toNat < 2 ^ 63 := by
  intro b hb
  rcases List.mem_or_eq_of_mem_set hb with hb | rfl
  · exact h.used b hb
  · exact ⟨hused, (h.used block (List.mem_of_getElem? hblock)).2⟩

theorem set_found {blocks : List ArenaBlock} {id : Nat} {block block' : ArenaBlock} (hid : blocks[id]? = some block) :
    (blocks.set id block')[id]? = some block' := List.getElem?_set_self (List.getElem?_eq_some_iff.mp hid).1

theorem set_shape {blocks : List ArenaBlock} {id : Nat} {block : ArenaBlock} (hid : blocks[id]? = some block)
    (used : Size) : (blocks.set id { block with used }).map shape = blocks.map shape := by
  apply map_set_of_eq shape hid
  rfl

theorem LiveOk.extended {block : ArenaBlock} {ptr : Nat} {oldSize newSize used totalUsed : Size}
    {source : Allocation} (h : LiveOk s chain) (hblock : s.arena.blocks[s.arena.currentBlock]? = some block)
    (hlt : oldSize < newSize) (hend : ptr + oldSize.toNat = block.data + block.used.toNat)
    (hused : used.toNat = block.used.toNat + (newSize.toNat - oldSize.toNat)) (hfit : used.toNat ≤ block.size.toNat)
    (hsource : source ∈ s.live) (hstart : source.start = ptr) (hsize : source.size = oldSize) :
    LiveOk ⟨{ s.arena with blocks := s.arena.blocks.set s.arena.currentBlock { block with used }, totalUsed },
      recordResult s.live (.realloc (some ptr) oldSize newSize) (some ptr) s.arena.currentBlock s.clock,
      s.marks, s.clock + 1⟩ chain := by
  rw [BitVec.lt_def] at hlt
  have hshape := set_shape hblock used
  have hcurrent : source.block = s.arena.currentBlock := h.block_of_stop hsource hblock (by rw [hstart, hsize, hend])
  obtain ⟨own, hfits⟩ := h.place source hsource
  obtain rfl := hfits.block_eq hblock hcurrent
  have hlower := hfits.lower
  refine h.resize { block with used } (fun live => h.session.reshape hshape rfl rfl h.session.chain.current) rfl
    (h.used_set hblock hfit) (fun id _ => regions_get hshape id) ?_ ?_ hsource hstart ?_ ?_
  · intro a ha
    obtain ⟨b, hb⟩ := h.place a ha
    exact hb.raise hblock (by omega) rfl rfl
  · intro current hcur hzero
    obtain rfl : { block with used } = current := Option.some.inj ((set_found hblock).symm.trans hcur)
    have hnat : used.toNat = 0 := congrArg BitVec.toNat hzero
    omega
  · refine ⟨by rw [hcurrent]; exact set_found hblock, hfits.chain, hfits.current, ?_, hlower, ?_⟩
    · show 0 < newSize.toNat
      omega
    · show source.start + newSize.toNat ≤ block.data + used.toNat
      omega
  · rintro a ha (hbelow | habove)
    · exact .inr (by rw [← hstart]; exact hbelow)
    · obtain ⟨b, hb⟩ := h.place a ha
      have hpos := hb.pos
      have hupper := hb.upper
      have hstop : block.data + block.used.toNat ≤ a.start := by
        rw [← hend, ← hstart, ← hsize]
        exact habove
      have hne : a.block ≠ s.arena.currentBlock := by
        intro heq
        obtain rfl := hb.block_eq hblock heq
        omega
      refine (BlocksOk.apart_of_ne h.session.blocks hblock hb.found (Ne.symm hne)).inside ⟨?_, ?_⟩ (h.inside hb)
      · show block.data ≤ ptr
        omega
      · show ptr + newSize.toNat ≤ block.data + block.size.toNat
        omega

theorem LiveOk.kept {ptr : Nat} {oldSize newSize : Size} {source : Allocation} (h : LiveOk s chain)
    (hpos : newSize ≠ 0) (hle : newSize ≤ oldSize) (hsource : source ∈ s.live) (hstart : source.start = ptr)
    (hsize : source.size = oldSize) :
    LiveOk ⟨s.arena,
      recordResult s.live (.realloc (some ptr) oldSize newSize) (some ptr) s.arena.currentBlock s.clock,
      s.marks, s.clock + 1⟩ chain := by
  rw [BitVec.le_def] at hle
  obtain ⟨own, hfits⟩ := h.place source hsource
  have hupper := hfits.upper
  rw [hsize] at hupper
  have hinside : Region.Inside ⟨ptr, newSize.toNat⟩ source.region := by
    refine ⟨hstart.le, ?_⟩
    show ptr + newSize.toNat ≤ source.start + source.size.toNat
    rw [hstart, hsize]
    omega
  refine h.resize own (fun live => h.session.reshape rfl rfl rfl h.session.chain.current) rfl h.used
    (fun _ _ => rfl) h.place h.empty hsource hstart ?_ ?_
  · refine ⟨hfits.found, hfits.chain, hfits.current, ?_, hfits.lower, ?_⟩
    · exact Nat.pos_of_ne_zero fun hzero => hpos (BitVec.eq_of_toNat_eq hzero)
    · show source.start + newSize.toNat ≤ own.data + own.used.toNat
      omega
  · exact fun a _ hap => hap.symm.inside hinside ⟨le_rfl, le_rfl⟩

theorem LiveOk.taken {block : ArenaBlock} {request : Request} {offset needed : Size} (h : LiveOk s chain)
    (hblock : s.arena.blocks[s.arena.currentBlock]? = some block) (hpos : request.bytes ≠ 0)
    (hoffset : block.used.toNat ≤ offset.toNat)
    (hused : (offset + request.bytes).toNat = offset.toNat + request.bytes.toNat)
    (hfit : offset.toNat + request.bytes.toNat ≤ block.size.toNat)
    (hsource : ∀ ptr oldSize newSize, request = .realloc (some ptr) oldSize newSize → ∃ a ∈ s.live, a.start = ptr) :
    LiveOk ⟨(s.arena.take block offset needed request.bytes).2,
      recordResult s.live request (s.arena.take block offset needed request.bytes).1 s.arena.currentBlock s.clock,
      s.marks, s.clock + 1⟩ chain := by
  have hshape := set_shape hblock (offset + request.bytes)
  refine h.add { block with used := offset + request.bytes }
    (fun live => h.session.reshape hshape rfl rfl h.session.chain.current) rfl
    (h.used_set hblock (by omega)) (fun id _ => regions_get hshape id) ?_ ?_ ?_ hsource
  · intro a ha
    obtain ⟨b, hb⟩ := h.place a ha
    exact hb.raise hblock (by omega) rfl rfl
  · refine ⟨set_found hblock, h.session.chain.current, le_rfl, ?_, Nat.le_add_right _ _, ?_⟩
    · exact Nat.pos_of_ne_zero fun hzero => hpos (BitVec.eq_of_toNat_eq hzero)
    · show block.data + offset.toNat + request.bytes.toNat ≤ block.data + (offset + request.bytes).toNat
      omega
  · intro a ha
    refine h.apart_of_unused hblock (Nat.add_le_add_left hoffset _) ⟨Nat.le_add_right _ _, ?_⟩ ha
    show block.data + offset.toNat + request.bytes.toNat ≤ block.data + block.size.toNat
    omega

theorem grown_get {arena : Arena} {block newBlock : ArenaBlock} {id : Nat} (hid : id < arena.blocks.length)
    (alignedOffset needed size : Size) :
    ((arena.grow block newBlock).take newBlock alignedOffset needed size).2.blocks[id]? =
      (arena.blocks.set arena.currentBlock { block with next := some arena.blocks.length })[id]? := by
  simp only [Arena.take, Arena.grow]
  rw [List.getElem?_set_ne (by omega), List.getElem?_append_left (by rw [List.length_set]; exact hid)]

theorem Fits.grown {arena : Arena} {block newBlock b : ArenaBlock} {pre post : List Nat} {a : Allocation}
    (hb : Fits arena (pre ++ arena.currentBlock :: post) a b)
    (hchain : ChainOk arena (pre ++ arena.currentBlock :: post))
    (hblock : arena.blocks[arena.currentBlock]? = some block) (alignedOffset needed size : Size) :
    ∃ b', Fits ((arena.grow block newBlock).take newBlock alignedOffset needed size).2
      (pre ++ [arena.currentBlock] ++ [arena.blocks.length]) a b' := by
  have hlt := hchain.bounded _ hchain.current
  have hle := hb.current
  have hafter : ∀ id ∈ post, arena.currentBlock < id :=
    (List.pairwise_cons.mp (List.pairwise_append.mp hchain.ascending).2.1).1
  have hmem : a.block ∈ pre ++ [arena.currentBlock] ++ [arena.blocks.length] := by
    have hin := hb.chain
    simp only [List.mem_append, List.mem_cons] at hin ⊢
    rcases hin with hpre | hcur | hpost
    · exact .inl (.inl hpre)
    · exact .inl (.inr (.inl hcur))
    · have := hafter _ hpost
      omega
  have hbound : a.block ≤ ((arena.grow block newBlock).take newBlock alignedOffset needed size).2.currentBlock :=
    hle.trans hlt.le
  by_cases hcur : a.block = arena.currentBlock
  · obtain rfl := hb.block_eq hblock hcur
    refine ⟨{ block with next := some arena.blocks.length }, hb.carry ?_ rfl le_rfl hmem hbound⟩
    rw [grown_get (by omega), hcur]
    exact set_found hblock
  · refine ⟨b, hb.carry ?_ rfl le_rfl hmem hbound⟩
    rw [grown_get (by omega), List.getElem?_set_ne (Ne.symm hcur), hb.found]

theorem LiveOk.grown {block newBlock : ArenaBlock} {request : Request} {pre post : List Nat}
    (h : LiveOk s (pre ++ s.arena.currentBlock :: post))
    (hblock : s.arena.blocks[s.arena.currentBlock]? = some block) (hpos : request.bytes ≠ 0)
    (hnext : newBlock.next = none) (hzero : newBlock.used = 0) (hfit : request.bytes.toNat ≤ newBlock.size.toNat)
    (hlimit : newBlock.size.toNat < 2 ^ 63) (hplaced : Placed s.arena.blocks newBlock.region)
    (hsource : ∀ ptr oldSize newSize, request = .realloc (some ptr) oldSize newSize → ∃ a ∈ s.live, a.start = ptr) :
    LiveOk ⟨((s.arena.grow block newBlock).take newBlock 0 request.bytes request.bytes).2,
      recordResult s.live request ((s.arena.grow block newBlock).take newBlock 0 request.bytes request.bytes).1
        s.arena.blocks.length s.clock,
      s.marks, s.clock + 1⟩ (pre ++ [s.arena.currentBlock] ++ [s.arena.blocks.length]) := by
  have hused : (0 + request.bytes).toNat = request.bytes.toNat := by simp
  refine h.add { newBlock with used := 0 + request.bytes }
    (fun live => h.session.grown hblock hnext hplaced 0 request.bytes request.bytes) rfl ?_ ?_ ?_ ?_ ?_ hsource
  · intro b hb
    rcases List.mem_or_eq_of_mem_set hb with hb | rfl
    · rcases List.mem_append.mp hb with hb | hb
      · rcases List.mem_or_eq_of_mem_set hb with hb | rfl
        · exact h.used b hb
        · exact h.used block (List.mem_of_getElem? hblock)
      · rw [List.mem_singleton.mp hb, hzero]
        exact ⟨Nat.zero_le _, hlimit⟩
    · refine ⟨?_, hlimit⟩
      show (0 + request.bytes).toNat ≤ newBlock.size.toNat
      omega
  · intro id hid
    have hregions : (s.arena.blocks.set s.arena.currentBlock { block with next := some s.arena.blocks.length }).map
        ArenaBlock.region = s.arena.blocks.map ArenaBlock.region := by
      apply map_set_of_eq ArenaBlock.region hblock
      rfl
    rw [grown_get hid, ← List.getElem?_map, ← List.getElem?_map, hregions]
  · intro a ha
    obtain ⟨b, hb⟩ := h.place a ha
    exact hb.grown h.session.chain hblock _ _ _
  · refine ⟨set_found (grow_current s.arena block newBlock), by simp [Arena.take, Arena.grow], le_rfl, ?_,
      Nat.le_add_right _ _, ?_⟩
    · exact Nat.pos_of_ne_zero fun hzero => hpos (BitVec.eq_of_toNat_eq hzero)
    · show newBlock.data + 0 + request.bytes.toNat ≤ newBlock.data + (0 + request.bytes).toNat
      omega
  · intro a ha
    obtain ⟨b, hb⟩ := h.place a ha
    have hapart := hplaced.2 b (List.mem_of_getElem? hb.found)
    refine hapart.inside ⟨Nat.le_add_right _ _, ?_⟩ (h.inside hb)
    show newBlock.data + 0 + request.bytes.toNat ≤ newBlock.data + newBlock.size.toNat
    omega

theorem LiveOk.request {request : Request} {grant result : Option Nat} {arena : Arena} (h : LiveOk s chain)
    (hproper : Proper s (.request request grant))
    (hgrant : ∀ data, grant = some data → Placed s.arena.blocks ⟨data, (s.arena.newBlockSize request.bytes).toNat⟩)
    (hserve : s.arena.serve request grant = some (result, arena)) :
    ∃ chain', LiveOk ⟨arena, recordResult s.live request result arena.currentBlock s.clock, s.marks, s.clock + 1⟩
      chain' := by
  obtain ⟨block, hblock⟩ := h.session.chain.has_block
  obtain ⟨hsmall, hlive⟩ := hproper
  have hsource : ∀ ptr oldSize newSize, request = .realloc (some ptr) oldSize newSize → ∃ a ∈ s.live, a.start = ptr := by
    intro ptr oldSize newSize hrequest
    obtain ⟨a, ha, hstart, -⟩ := hlive ptr oldSize newSize hrequest
    exact ⟨a, ha, hstart⟩
  obtain ⟨hle, hlimit⟩ := h.used block (List.mem_of_getElem? hblock)
  cases serve_served hblock hserve with
  | refused => exact ⟨chain, h.subset rfl rfl rfl rfl rfl (List.Sublist.refl _)⟩
  | denied => exact ⟨chain, h.subset rfl rfl rfl rfl rfl (List.Sublist.refl _)⟩
  | kept ptr oldSize newSize hrequest hpos hless =>
      subst hrequest
      obtain ⟨source, hmem, hstart, hsize⟩ := hlive ptr oldSize newSize rfl
      exact ⟨chain, h.kept hpos hless hmem hstart hsize⟩
  | extended ptr oldSize newSize hrequest hlt hextends =>
      subst hrequest
      obtain ⟨source, hmem, hstart, hsize⟩ := hlive ptr oldSize newSize rfl
      obtain ⟨hend, hused, hfit⟩ := extends_true hlt (by omega) hsmall hextends
      exact ⟨chain, h.extended hblock hlt hend hused hfit hmem hstart hsize⟩
  | taken hexact hpos halign hroom took htook =>
      subst htook
      obtain ⟨hbytes, halignment⟩ := small_bytes hsmall hexact
      have hnonzero : alignOf request ≠ 0 := by
        rw [validAlign, decide_eq_true_eq] at halign
        exact halign.1
      obtain ⟨hoffset, hused, hfit⟩ := lacksRoom_false hnonzero (by omega) halignment hbytes hroom
      exact ⟨chain, h.taken hblock hpos hoffset hused hfit hsource⟩
  | grown hexact hpos hfull data hdata newBlock hnew took htook =>
      subst htook
      obtain ⟨hbytes, -⟩ := small_bytes hsmall hexact
      obtain ⟨hfit, hbound⟩ := newBlockSize_bounds h.blockSize.1 h.blockSize.2 hbytes
      have hplaced := hgrant data hdata
      have hregion : newBlock.region = ⟨data, (s.arena.newBlockSize request.bytes).toNat⟩ := by rw [hnew]; rfl
      have hsize : newBlock.size = s.arena.newBlockSize request.bytes := by rw [hnew]
      rw [← hregion] at hplaced
      rw [← hsize] at hfit hbound
      obtain ⟨pre, post, rfl⟩ := List.append_of_mem h.session.chain.current
      exact ⟨_, h.grown hblock hpos (by rw [hnew]) (by rw [hnew]) hfit hbound hplaced hsource⟩

theorem exists_of_shape {blocks blocks' : List ArenaBlock} (hshape : blocks'.map shape = blocks.map shape) {id : Nat}
    {block' : ArenaBlock} (hid : blocks'[id]? = some block') :
    ∃ block, blocks[id]? = some block ∧ block.data = block'.data ∧ block.size = block'.size := by
  have hregion := regions_get hshape id
  rw [hid, Option.map_some, eq_comm, Option.map_eq_some_iff] at hregion
  obtain ⟨block, hblock, heq⟩ := hregion
  exact ⟨block, hblock, congrArg Region.start heq, BitVec.eq_of_toNat_eq (congrArg Region.size heq)⟩

theorem LiveOk.reset {arena : Arena} (h : LiveOk s chain) (hreset : akArenaReset s.arena = some arena) :
    LiveOk ⟨arena, [], s.marks, s.clock + 1⟩ chain := by
  obtain ⟨blocks, heq, hcleared⟩ := akArenaReset_spec h.session.chain
  obtain rfl := Option.some.inj (heq.symm.trans hreset)
  refine h.next (h.session.reshape hcleared.shapes rfl rfl h.session.chain.first) rfl ?_
    (fun id _ => regions_get hcleared.shapes id) (by simp) List.Pairwise.nil (fun _ _ _ => rfl) (by simp [Heirs])
  intro block hblock
  obtain ⟨id, hid⟩ := List.mem_iff_getElem?.mp hblock
  obtain ⟨old, hold, -, hsize⟩ := exists_of_shape hcleared.shapes hid
  have hlimit := (h.used old (List.mem_of_getElem? hold)).2
  rw [hsize] at hlimit
  rcases hcleared.kept hid with hused | hsame
  · rw [hused]
    exact ⟨Nat.zero_le _, hlimit⟩
  · exact h.used block (List.mem_of_getElem? hsame)

theorem LiveOk.snapshot {mark : Mark} (h : LiveOk s chain) (hsnapshot : akArenaSnapshot s.arena = some mark) :
    LiveOk ⟨s.arena, s.live, (mark, s.clock) :: s.marks, s.clock + 1⟩ chain := by
  obtain ⟨block, hblock⟩ := h.session.chain.has_block
  simp only [akArenaSnapshot, hblock, bind, Option.bind] at hsnapshot
  cases hsnapshot
  have hnext := h.subset rfl rfl rfl rfl rfl (List.Sublist.refl s.live)
  refine ⟨⟨h.session.chain, h.session.blocks, ?_⟩, h.blockSize, h.used, h.place, h.apart, h.empty, hnext.born, ?_⟩
  · intro m hm
    rcases List.mem_cons.mp hm with rfl | hm
    · exact h.session.chain.bounded _ h.session.chain.current
    · exact h.session.marks m hm
  · intro m taken hm
    rcases List.mem_cons.mp hm with heq | hm
    · cases heq
      refine ⟨Nat.lt_succ_self _, ?_, ?_, ?_⟩
      · intro b hb
        obtain rfl : block = b := Option.some.inj (hblock.symm.trans hb)
        exact (h.used block (List.mem_of_getElem? hblock)).1
      · intro hzero a ha
        rw [h.empty block hblock hzero] at ha
        cases ha
      · intro a ha _
        obtain ⟨b, hb⟩ := h.place a ha
        exact hb.current
    · have hold := hnext.marks m taken hm
      exact ⟨hold.past, hold.offset, hold.empty, hold.before⟩

theorem LiveOk.restore {mark : Mark} {taken : Nat} {arena : Arena} (h : LiveOk s chain)
    (hmark : (mark, taken) ∈ s.marks) (hwhole : RestoresWhole s (.restore mark taken))
    (hrestore : akArenaRestore s.arena mark = some arena) :
    LiveOk ⟨arena, s.live.filter fun a => a.born < taken, s.marks, s.clock + 1⟩ chain := by
  have hok := h.marks mark taken hmark
  have hlt : mark.block < s.arena.blocks.length := h.session.marks _ hmark
  obtain ⟨arena', heq, hcases⟩ := akArenaRestore_spec h.session.chain hlt
  obtain rfl := Option.some.inj (heq.symm.trans hrestore)
  rcases hcases with rfl | ⟨hmem, blocks, totalUsed, rfl, hshape, hbefore, hkept, hoffset⟩
  · exact h.subset rfl rfl rfl rfl rfl List.filter_sublist
  · obtain ⟨marked, hmarked, hused⟩ := Option.map_eq_some_iff.mp hoffset
    obtain ⟨old, hold, hdata, hsize⟩ := exists_of_shape hshape hmarked
    refine h.next (h.session.reshape hshape rfl rfl hmem) rfl ?_ (fun id _ => regions_get hshape id) ?_
      (h.apart.sublist List.filter_sublist) ?_ ?_
    · intro block hblock
      obtain ⟨id, hid⟩ := List.mem_iff_getElem?.mp hblock
      obtain ⟨was, hwas, -, hwsize⟩ := exists_of_shape hshape hid
      have hlimit := (h.used was (List.mem_of_getElem? hwas)).2
      rw [hwsize] at hlimit
      rcases hkept id block hid with hzero | hsame | rfl
      · rw [hzero]
        exact ⟨Nat.zero_le _, hlimit⟩
      · exact h.used block (List.mem_of_getElem? hsame)
      · obtain rfl : marked = block := Option.some.inj (hmarked.symm.trans hid)
        refine ⟨?_, hlimit⟩
        rw [hused, ← hsize]
        exact hok.offset old hold
    · intro a ha
      obtain ⟨halive, hborn⟩ := List.mem_filter.mp ha
      rw [decide_eq_true_eq] at hborn
      obtain ⟨b, hb⟩ := h.place a halive
      have hle := hok.before a halive hborn
      rcases Nat.lt_or_eq_of_le hle with hless | heq
      · refine ⟨b, hb.carry ?_ rfl le_rfl hb.chain hle⟩
        exact (hbefore _ hb.chain hless).trans hb.found
      · have hupper := hwhole old hold a halive hborn heq
        obtain rfl := hb.block_eq hold heq
        have hlower := hb.lower
        refine ⟨marked, by rw [heq]; exact hmarked, hb.chain, hle, hb.pos, by omega, ?_⟩
        rw [hused]
        omega
    · intro block hblock hzero
      obtain rfl : marked = block := Option.some.inj (hmarked.symm.trans hblock)
      have hnone := hok.empty (hused.symm.trans hzero)
      rw [List.filter_eq_nil_iff]
      intro a ha
      rw [decide_eq_true_eq, not_lt]
      exact hnone a ha
    · intro a ha
      exact .inr ⟨a, (List.mem_filter.mp ha).1, rfl, rfl⟩

theorem LiveOk.start {blockSize : Size} (h : Fresh blockSize s) (hsize : blockSize.toNat < 2 ^ 62) : LiveOk s [0] := by
  have hsession := (SessionOk.start h).1
  obtain ⟨granted, data, hnew, hlive, hmarks, -, -⟩ := h
  rw [akArenaNew] at hnew
  split_ifs at hnew with hzero
  simp only [allocateBlock, Option.map_some, bind, Option.bind, Option.some.injEq] at hnew
  refine ⟨hsession, ?_, ?_, by simp [hlive], by simp [hlive], fun _ _ _ => hlive, by simp [hlive], by simp [hmarks]⟩
  · rw [← hnew]
    exact ⟨hzero, hsize⟩
  · rw [← hnew]
    intro block hblock
    rw [List.mem_singleton.mp hblock]
    refine ⟨Nat.zero_le _, ?_⟩
    show blockSize.toNat < 2 ^ 63
    omega

end Steps

/-- Every live allocation lies in a block, and no two share a byte. -/
def DisjointLive (s : Session) : Prop :=
  (∀ a ∈ s.live, ∃ block ∈ s.arena.blocks, a.region.Inside block.region) ∧
    s.live.Pairwise fun a b => a.region.Apart b.region

def ProperStep (s : Session) (calls : List Call) (s' : Session) : Prop :=
  Step s calls s' ∧ ∀ call ∈ calls, Proper s call

def WholeStep (s : Session) (calls : List Call) (s' : Session) : Prop :=
  ProperStep s calls s' ∧ ∀ call ∈ calls, RestoresWhole s call

section Runs

variable {s s' s₀ : Session} {chain : List Nat} {calls : List Call} {blockSize : Size}

theorem LiveOk.step (h : LiveOk s chain) (hs : WholeStep s calls s') : ∃ chain', LiveOk s' chain' := by
  obtain ⟨⟨hstep, hproper⟩, hwhole⟩ := hs
  cases hstep with
  | request request grant result arena hgrant hserve => exact h.request (hproper _ (by simp)) hgrant hserve
  | reset arena hreset => exact ⟨chain, h.reset hreset⟩
  | snapshot mark hsnapshot => exact ⟨chain, h.snapshot hsnapshot⟩
  | restore mark taken arena hmark hrestore => exact ⟨chain, h.restore hmark (hwhole _ (by simp)) hrestore⟩

/-- Where no live allocation reaches past a mark that is restored, no two live
allocations ever share a byte. -/
theorem live_disjoint_of_restoresWhole (hfresh : Fresh blockSize s₀) (hsize : blockSize.toNat < 2 ^ 62)
    (hrun : Run WholeStep s₀ calls s) : DisjointLive s := by
  have hinv : ∃ chain, LiveOk s chain := by
    refine hrun.invariant (P := fun _ s => ∃ chain, LiveOk s chain) ⟨[0], LiveOk.start hfresh hsize⟩ ?_
    rintro _ s _ s' ⟨chain, h⟩ hs
    exact h.step hs
  obtain ⟨chain, h⟩ := hinv
  refine ⟨fun a ha => ?_, h.apart⟩
  obtain ⟨block, hfits⟩ := h.place a ha
  exact ⟨block, List.mem_of_getElem? hfits.found, h.inside hfits⟩

def roomy : Session := ⟨⟨[⟨4096, 256, 0, 0, none⟩], 0, 0, 256, 256, 0, 1⟩, [], [], 0⟩

theorem roomy_fresh : Fresh 256 roomy := ⟨true, 4096, rfl, rfl, rfl, rfl, by decide⟩

/-- A scope with an allocation and a reallocation of its own is left, and the
next allocation reuses its bytes. -/
theorem scope_reuses_bytes : ∃ s₀ s calls, Fresh 256 s₀ ∧ Run WholeStep s₀ calls s ∧
    s.live = [⟨4144, 8, 0, 5⟩, ⟨4096, 48, 0, 0⟩] ∧ DisjointLive s := by
  have r₁ : Run WholeStep roomy _ _ := Run.next .start
    ⟨⟨Step.request roomy (.alloc 48) none _ _ (by simp) rfl, by simp [Proper, Small]⟩, by simp [RestoresWhole]⟩
  have r₂ := r₁.next ⟨⟨.snapshot _ _ rfl, by simp [Proper]⟩, by simp [RestoresWhole]⟩
  have r₃ := r₂.next ⟨⟨.request _ (.alloc 16) none _ _ (by simp) rfl, by simp [Proper, Small]⟩,
    by simp [RestoresWhole]⟩
  have r₄ := r₃.next ⟨⟨.request _ (.realloc (some 4144) 16 32) none _ _ (by simp) rfl, by
    intro call hcall
    rw [List.mem_singleton.mp hcall]
    refine ⟨by simp [Small], ?_⟩
    rintro _ _ _ ⟨⟩
    exact ⟨⟨4144, 16, 0, 2⟩, List.Mem.head _, rfl, rfl⟩⟩, by simp [RestoresWhole]⟩
  have r₅ := r₄.next ⟨⟨.restore _ ⟨0, 48, 0⟩ 1 _ (List.Mem.head _) rfl, by simp [Proper]⟩, by
    intro call hcall
    rw [List.mem_singleton.mp hcall]
    rintro block ⟨⟩
    decide⟩
  have r₆ := r₅.next ⟨⟨.request _ (.alloc 8) none _ _ (by simp) rfl, by simp [Proper, Small]⟩,
    by simp [RestoresWhole]⟩
  exact ⟨_, _, _, roomy_fresh, r₆, rfl, live_disjoint_of_restoresWhole roomy_fresh (by decide) r₆⟩

/-- An allocation made before the scope is grown within it; once the scope is
left, the next allocation lands in it. -/
theorem restore_under_grown_allocation :
    ∃ s₀ s calls, Fresh 256 s₀ ∧ Run ProperStep s₀ calls s ∧ ¬ DisjointLive s := by
  have r₁ : Run ProperStep roomy _ _ := Run.next .start
    ⟨Step.request roomy (.alloc 48) none _ _ (by simp) rfl, by simp [Proper, Small]⟩
  have r₂ := r₁.next ⟨.snapshot _ _ rfl, by simp [Proper]⟩
  have r₃ := r₂.next ⟨.request _ (.realloc (some 4096) 48 96) none _ _ (by simp) rfl, by
    intro call hcall
    rw [List.mem_singleton.mp hcall]
    refine ⟨by simp [Small], ?_⟩
    rintro _ _ _ ⟨⟩
    exact ⟨⟨4096, 48, 0, 0⟩, List.Mem.head _, rfl, rfl⟩⟩
  have r₄ := r₃.next ⟨.restore _ ⟨0, 48, 0⟩ 1 _ (List.Mem.head _) rfl, by simp [Proper]⟩
  have r₅ := r₄.next ⟨.request _ (.alloc 8) none _ _ (by simp) rfl, by simp [Proper, Small]⟩
  refine ⟨_, _, _, roomy_fresh, r₅, ?_⟩
  rintro ⟨-, hpair⟩
  have hoverlap := (List.pairwise_cons.mp hpair).1 ⟨4096, 96, 0, 0⟩ (List.Mem.head _)
  revert hoverlap
  decide

end Runs

end Ak24.ArenaLive
