import Ak24.ArenaModel
import Ak24.Chains
import Ak24.Transition

namespace Ak24.ArenaChain

open ArenaModel Regions Chains Transition

def nextOf (blocks : List ArenaBlock) (id : Nat) : Option Nat := (blocks[id]?).bind ArenaBlock.next

def shape (block : ArenaBlock) : ArenaBlock := { block with used := 0 }

def usedAt (blocks : List ArenaBlock) (id : Nat) : Size := ((blocks[id]?).map ArenaBlock.used).getD 0

structure Cleared (blocks : List ArenaBlock) (chain : List Nat) (blocks' : List ArenaBlock) : Prop where
  shapes : blocks'.map shape = blocks.map shape
  same : ∀ id ∉ chain, blocks'[id]? = blocks[id]?
  zero : ∀ id ∈ chain, usedAt blocks' id = 0

section Blocks

variable {blocks blocks' : List ArenaBlock} {block block' : ArenaBlock} {p : Option Nat} {chain : List Nat}
  {id fuel : Nat}

theorem map_set_of_eq {β : Type} (f : ArenaBlock → β) (hid : blocks[id]? = some block) (hf : f block' = f block) :
    (blocks.set id block').map f = blocks.map f := by
  obtain ⟨hlt, rfl⟩ := List.getElem?_eq_some_iff.mp hid
  rw [List.map_set, hf]
  apply List.ext_getElem?
  intro i
  by_cases hi : id = i
  · subst hi
    simp [hlt]
  · rw [List.getElem?_set_ne hi]

theorem nextOf_map_shape (blocks : List ArenaBlock) : nextOf (blocks.map shape) = nextOf blocks := by
  funext id
  rw [nextOf, nextOf, List.getElem?_map, Option.bind_map]
  rfl

theorem nextOf_congr (h : blocks'.map shape = blocks.map shape) : nextOf blocks' = nextOf blocks := by
  rw [← nextOf_map_shape blocks', h, nextOf_map_shape]

theorem map_congr_of_shape {β : Type} {f : ArenaBlock → β} (hf : ∀ block, f (shape block) = f block)
    (h : blocks'.map shape = blocks.map shape) : blocks'.map f = blocks.map f := by
  have hcomp : f ∘ shape = f := by
    funext block
    exact hf block
  have hmap := congrArg (List.map f) h
  rwa [List.map_map, List.map_map, hcomp] at hmap

theorem regions_congr (h : blocks'.map shape = blocks.map shape) :
    blocks'.map ArenaBlock.region = blocks.map ArenaBlock.region := map_congr_of_shape (fun _ => rfl) h

theorem length_congr (h : blocks'.map shape = blocks.map shape) : blocks'.length = blocks.length := by
  simpa using congrArg List.length h

theorem nextOf_set (hid : blocks[id]? = some block) (hshape : shape block' = shape block) :
    nextOf (blocks.set id block') = nextOf blocks := nextOf_congr (map_set_of_eq shape hid hshape)

theorem exists_block (hid : id < blocks.length) : ∃ block, blocks[id]? = some block :=
  ⟨blocks[id], List.getElem?_eq_getElem hid⟩

theorem usedAt_of_get (hid : blocks[id]? = some block) : usedAt blocks id = block.used := by
  rw [usedAt, hid]
  rfl

theorem usedAt_set (hid : id < blocks.length) (block' : ArenaBlock) :
    usedAt (blocks.set id block') = Function.update (usedAt blocks) id block'.used := by
  funext i
  by_cases hi : i = id
  · subst hi
    rw [Function.update_self, usedAt, List.getElem?_set_self hid]
    rfl
  · rw [Function.update_of_ne hi, usedAt, usedAt, List.getElem?_set_ne (Ne.symm hi)]

theorem Cleared.kept (h : Cleared blocks chain blocks') (hid : blocks'[id]? = some block) :
    block.used = 0 ∨ blocks[id]? = some block := by
  by_cases hmem : id ∈ chain
  · rw [← usedAt_of_get hid]
    exact .inl (h.zero id hmem)
  · rw [← h.same id hmem]
    exact .inr hid

theorem clearUsed_spec (h : Linked (nextOf blocks) p chain) (hbounded : ∀ id ∈ chain, id < blocks.length)
    (hfuel : chain.length ≤ fuel) (reclaimed : Size) :
    ∃ blocks', clearUsed fuel blocks p reclaimed = some (reclaimed + (chain.map (usedAt blocks)).sum, blocks') ∧
      Cleared blocks chain blocks' := by
  induction chain generalizing p blocks fuel reclaimed with
  | nil =>
      rw [Linked] at h
      subst h
      exact ⟨blocks, by simp [clearUsed], rfl, fun _ _ => rfl, by simp⟩
  | cons a chain ih =>
      have hfresh : a ∉ chain := (List.nodup_cons.mp h.nodup).1
      obtain ⟨rfl, hrest⟩ := h
      have halt := hbounded a List.mem_cons_self
      obtain ⟨block, hblock⟩ := exists_block halt
      have hshape : shape { block with used := 0 } = shape block := rfl
      rw [← nextOf_set hblock hshape] at hrest
      have hnext : nextOf (blocks.set a { block with used := 0 }) a = block.next := by
        rw [nextOf_set hblock hshape, nextOf, hblock]
        rfl
      rw [hnext] at hrest
      obtain ⟨fuel, rfl⟩ : ∃ k, fuel = k + 1 := ⟨fuel - 1, by rw [List.length_cons] at hfuel; omega⟩
      have hbounded' : ∀ id ∈ chain, id < (blocks.set a { block with used := 0 }).length := by
        intro id hid
        rw [List.length_set]
        exact hbounded id (by simp [hid])
      have hothers : chain.map (usedAt (blocks.set a { block with used := 0 })) = chain.map (usedAt blocks) := by
        apply List.map_congr_left
        intro id hid
        rw [usedAt_set halt, Function.update_of_ne (ne_of_mem_of_not_mem hid hfresh)]
      obtain ⟨blocks', hclear, hcleared⟩ := ih hrest hbounded' (by simpa using hfuel) (reclaimed + block.used)
      have hshapes := hcleared.shapes.trans (map_set_of_eq shape hblock hshape)
      refine ⟨blocks', ?_, hshapes, fun id hid => ?_, fun id hid => ?_⟩
      · rw [List.map_cons, List.sum_cons, usedAt_of_get hblock, ← hothers, ← add_assoc]
        simp only [clearUsed, hblock, bind, Option.bind]
        exact hclear
      · rw [List.mem_cons, not_or] at hid
        rw [hcleared.same id hid.2, List.getElem?_set_ne (Ne.symm hid.1)]
      · rcases List.mem_cons.mp hid with rfl | hid
        · rw [usedAt, hcleared.same id hfresh, List.getElem?_set_self halt]
          rfl
        · exact hcleared.zero id hid

theorem findBlock_spec (h : Linked (nextOf blocks) p chain) (hbounded : ∀ id ∈ chain, id < blocks.length)
    (hfuel : chain.length ≤ fuel) (target : Nat) :
    findBlock blocks target fuel p = some (decide (target ∈ chain)) := by
  induction chain generalizing p fuel with
  | nil =>
      rw [Linked] at h
      subst h
      simp [findBlock]
  | cons a chain ih =>
      obtain ⟨rfl, hrest⟩ := h
      obtain ⟨block, hblock⟩ := exists_block (hbounded a (by simp))
      obtain ⟨fuel, rfl⟩ : ∃ k, fuel = k + 1 := ⟨fuel - 1, by rw [List.length_cons] at hfuel; omega⟩
      rw [nextOf, hblock] at hrest
      have hfound := ih hrest (fun id hid => hbounded id (by simp [hid])) (by simpa using hfuel)
      rw [findBlock]
      split_ifs with ha
      · simp [ha]
      · simp only [hblock, bind, Option.bind] at hfound ⊢
        rw [hfound]
        simp [Ne.symm ha]

theorem freeBlockChain_spec (h : Linked (nextOf blocks) p chain) (hbounded : ∀ id ∈ chain, id < blocks.length)
    (hfuel : chain.length ≤ fuel) : freeBlockChain blocks fuel p = some chain := by
  induction chain generalizing p fuel with
  | nil =>
      rw [Linked] at h
      subst h
      simp [freeBlockChain]
  | cons a chain ih =>
      obtain ⟨rfl, hrest⟩ := h
      obtain ⟨block, hblock⟩ := exists_block (hbounded a (by simp))
      obtain ⟨fuel, rfl⟩ : ∃ k, fuel = k + 1 := ⟨fuel - 1, by rw [List.length_cons] at hfuel; omega⟩
      rw [nextOf, hblock] at hrest
      have hfreed := ih hrest (fun id hid => hbounded id (by simp [hid])) (by simpa using hfuel)
      simp only [freeBlockChain, hblock, bind, Option.bind] at hfreed ⊢
      rw [hfreed]

theorem length_le_of_bounded (hnodup : chain.Nodup) (hbounded : ∀ id ∈ chain, id < blocks.length) :
    chain.length ≤ blocks.length := by
  rw [← List.toFinset_card_of_nodup hnodup, ← Finset.card_range blocks.length]
  apply Finset.card_le_card
  intro id hid
  exact Finset.mem_range.mpr (hbounded id (List.mem_toFinset.mp hid))

end Blocks

def answers (block : ArenaBlock) : Request → Bool
  | .alloc size => size = 0 ∨ !block.lacksRoom size defaultAlignment
  | .allocAligned size align => size = 0 ∨ !validAlign align ∨ !block.lacksRoom size align
  | .calloc nmemb size =>
    nmemb = 0 ∨ size = 0 ∨ nmemb * size / nmemb ≠ size ∨ !block.lacksRoom (nmemb * size) defaultAlignment
  | .realloc none _ newSize => newSize = 0 ∨ !block.lacksRoom newSize defaultAlignment
  | .realloc (some ptr) oldSize newSize =>
    newSize = 0 ∨ newSize ≤ oldSize ∨ block.extends ptr oldSize newSize ∨ !block.lacksRoom newSize defaultAlignment

def alignOf : Request → Size
  | .allocAligned _ align => align
  | _ => defaultAlignment

def exact : Request → Prop
  | .calloc nmemb size => nmemb.toNat * size.toNat < 2 ^ 64
  | _ => True

inductive Served (arena : Arena) (block : ArenaBlock) (request : Request) (grant : Option Nat) :
    Option Nat → Arena → Prop
  | refused : Served arena block request grant none arena
  | denied : Served arena block request grant none { arena with nextBlockNum := arena.nextBlockNum + 1 }
  | kept (ptr : Nat) (oldSize newSize : Size) (hrequest : request = .realloc (some ptr) oldSize newSize)
    (hpos : newSize ≠ 0) (hle : newSize ≤ oldSize) : Served arena block request grant (some ptr) arena
  | extended (ptr : Nat) (oldSize newSize : Size) (hrequest : request = .realloc (some ptr) oldSize newSize)
    (hlt : oldSize < newSize) (hextends : block.extends ptr oldSize newSize = true) :
    Served arena block request grant (some ptr)
      { arena with
        blocks := arena.blocks.set arena.currentBlock { block with used := block.used + (newSize - oldSize) }
        totalUsed := arena.totalUsed + (newSize - oldSize) }
  | taken (hexact : exact request) (hpos : request.bytes ≠ 0) (halign : validAlign (alignOf request) = true)
    (hroom : block.lacksRoom request.bytes (alignOf request) = false) (took : Option Nat × Arena)
    (htook : took = arena.take block (alignUp block.used (alignOf request))
      (block.needed request.bytes (alignOf request)) request.bytes) : Served arena block request grant took.1 took.2
  | grown (hexact : exact request) (hpos : request.bytes ≠ 0) (hfull : answers block request = false) (data : Nat)
    (hgrant : grant = some data) (newBlock : ArenaBlock)
    (hnew : newBlock = ⟨data, arena.newBlockSize request.bytes, 0, arena.nextBlockNum, none⟩)
    (took : Option Nat × Arena)
    (htook : took = (arena.grow block newBlock).take newBlock 0 request.bytes request.bytes) :
    Served arena block request grant took.1 took.2

section Serve

variable {arena arena' : Arena} {block : ArenaBlock} {request : Request} {grant result : Option Nat}

theorem akArenaAllocAligned_served (hblock : arena.blocks[arena.currentBlock]? = some block)
    (hexact : exact request)
    (hanswers : request.bytes ≠ 0 → validAlign (alignOf request) = true →
      block.lacksRoom request.bytes (alignOf request) = true → answers block request = false)
    (h : akArenaAllocAligned arena request.bytes (alignOf request) grant = some (result, arena')) :
    Served arena block request grant result arena' := by
  rw [akArenaAllocAligned] at h
  split_ifs at h with hpos halign
  · cases h
    exact .refused
  · cases h
    exact .refused
  · rw [Bool.not_eq_true', Bool.not_eq_false] at halign
    simp only [hblock, bind, Option.bind] at h
    split_ifs at h with hroom
    · cases hg : grant with
      | none =>
          rw [hg, allocateBlock] at h
          cases h
          exact .denied
      | some data =>
          rw [hg, allocateBlock] at h
          exact .grown hexact hpos (hanswers hpos halign hroom) data rfl _ rfl _ (Option.some.inj h).symm
    · exact .taken hexact hpos halign (Bool.not_eq_true _ ▸ hroom) _ (Option.some.inj h).symm

theorem calloc_exact {nmemb size : Size} (hdiv : nmemb * size / nmemb = size) : nmemb.toNat * size.toNat < 2 ^ 64 := by
  have hnat := congrArg BitVec.toNat hdiv
  rw [BitVec.toNat_udiv] at hnat
  calc nmemb.toNat * size.toNat = nmemb.toNat * ((nmemb * size).toNat / nmemb.toNat) := by rw [hnat]
    _ ≤ (nmemb * size).toNat := Nat.mul_div_le _ _
    _ < 2 ^ 64 := (nmemb * size).isLt

theorem serve_served (hblock : arena.blocks[arena.currentBlock]? = some block)
    (h : arena.serve request grant = some (result, arena')) : Served arena block request grant result arena' := by
  cases request with
  | alloc size =>
      refine akArenaAllocAligned_served hblock trivial (fun hpos _ hroom => ?_) h
      simpa [answers, Request.bytes, alignOf] using ⟨hpos, hroom⟩
  | allocAligned size align =>
      refine akArenaAllocAligned_served hblock trivial (fun hpos halign hroom => ?_) h
      simpa [answers, Request.bytes, alignOf] using ⟨hpos, halign, hroom⟩
  | calloc nmemb size =>
      simp only [Arena.serve, akArenaCalloc] at h
      split_ifs at h with hzero hdiv
      · cases h
        exact .refused
      · cases h
        exact .refused
      · refine akArenaAllocAligned_served hblock (calloc_exact (not_not.mp hdiv)) (fun hpos _ hroom => ?_) h
        rw [not_or] at hzero
        simpa [answers, Request.bytes, alignOf] using ⟨hzero.1, hzero.2, not_not.mp hdiv, hroom⟩
  | realloc ptr oldSize newSize =>
      cases ptr with
      | none =>
          simp only [Arena.serve, akArenaRealloc] at h
          split_ifs at h with hzero
          · cases h
            exact .refused
          · refine akArenaAllocAligned_served hblock trivial (fun hpos _ hroom => ?_) h
            simpa [answers, Request.bytes, alignOf] using ⟨hpos, hroom⟩
      | some ptr =>
          simp only [Arena.serve, akArenaRealloc, hblock, bind, Option.bind] at h
          split_ifs at h with hzero hle hext
          · cases h
            exact .refused
          · cases h
            exact .kept ptr oldSize newSize rfl hzero hle
          · cases h
            exact .extended ptr oldSize newSize rfl (BitVec.not_le.mp hle) hext
          · refine akArenaAllocAligned_served hblock trivial (fun hpos _ hroom => ?_) h
            simpa [answers, Request.bytes, alignOf] using ⟨hpos, BitVec.not_le.mp hle, (Bool.not_eq_true _).mp hext, hroom⟩

end Serve

structure ChainOk (arena : Arena) (chain : List Nat) : Prop where
  linked : Linked (nextOf arena.blocks) (some arena.firstBlock) chain
  current : arena.currentBlock ∈ chain
  ascending : chain.Pairwise (· < ·)
  bounded : ∀ id ∈ chain, id < arena.blocks.length

structure BlocksOk (arena : Arena) : Prop where
  apart : (arena.blocks.map ArenaBlock.region).Pairwise Region.Apart
  inside : ∀ r ∈ arena.blocks.map ArenaBlock.region, r.Inside ⟨1, 2 ^ 64 - 1⟩
  total : arena.totalAllocated.toNat = ((arena.blocks.map ArenaBlock.region).map Region.size).sum

section Chain

variable {arena arena' : Arena} {block newBlock : ArenaBlock} {chain pre post : List Nat} {mark : Mark}

theorem ChainOk.fuel (h : ChainOk arena chain) : chain.length ≤ arena.blocks.length :=
  length_le_of_bounded h.linked.nodup h.bounded

theorem ChainOk.first (h : ChainOk arena chain) : arena.firstBlock ∈ chain := by
  cases chain with
  | nil => exact absurd h.current List.not_mem_nil
  | cons a chain =>
      have hfirst : arena.firstBlock = a := Option.some.inj h.linked.1
      rw [hfirst]
      exact List.mem_cons_self

theorem ChainOk.has_block (h : ChainOk arena chain) : ∃ block, arena.blocks[arena.currentBlock]? = some block :=
  exists_block (h.bounded _ h.current)

theorem ChainOk.reshape (h : ChainOk arena chain) (hshape : arena'.blocks.map shape = arena.blocks.map shape)
    (hfirst : arena'.firstBlock = arena.firstBlock) (hcurrent : arena'.currentBlock ∈ chain) : ChainOk arena' chain where
  linked := by
    rw [nextOf_congr hshape, hfirst]
    exact h.linked
  current := hcurrent
  ascending := h.ascending
  bounded := by
    rw [length_congr hshape]
    exact h.bounded

theorem BlocksOk.reshape (h : BlocksOk arena) (hshape : arena'.blocks.map shape = arena.blocks.map shape)
    (htotal : arena'.totalAllocated = arena.totalAllocated) : BlocksOk arena' := by
  have hregions := regions_congr hshape
  refine ⟨?_, ?_, ?_⟩
  · rw [hregions]
    exact h.apart
  · rw [hregions]
    exact h.inside
  · rw [hregions, htotal]
    exact h.total

theorem take_shape (hblock : arena.blocks[arena.currentBlock]? = some block) (alignedOffset needed size : Size) :
    (arena.take block alignedOffset needed size).2.blocks.map shape = arena.blocks.map shape :=
  map_set_of_eq shape hblock rfl

theorem grow_current (arena : Arena) (block newBlock : ArenaBlock) :
    (arena.grow block newBlock).blocks[(arena.grow block newBlock).currentBlock]? = some newBlock := by
  simp [Arena.grow]

theorem ChainOk.grow (h : ChainOk arena (pre ++ arena.currentBlock :: post)) (hnew : newBlock.next = none) :
    ChainOk (arena.grow block newBlock) (pre ++ [arena.currentBlock] ++ [arena.blocks.length]) := by
  have hlt : arena.currentBlock < arena.blocks.length := h.bounded _ h.current
  have hpre : ∀ id ∈ pre, id < arena.currentBlock := by
    intro id hid
    exact (List.pairwise_append.mp h.ascending).2.2 id hid _ (by simp)
  refine ⟨h.linked.concat ?_ ?_ ?_, ?_, ?_, ?_⟩
  · rw [nextOf, Arena.grow, List.getElem?_append_left (by simpa using hlt), List.getElem?_set_self hlt]
    rfl
  · simp [nextOf, Arena.grow, hnew]
  · intro id hid
    have hid' := hpre id hid
    rw [nextOf, nextOf, Arena.grow, List.getElem?_append_left (by rw [List.length_set]; omega),
      List.getElem?_set_ne (by omega)]
  · simp [Arena.grow]
  · simp only [List.pairwise_append, List.pairwise_singleton, List.mem_append, List.mem_singleton]
    refine ⟨⟨(List.pairwise_append.mp h.ascending).1, trivial, ?_⟩, trivial, ?_⟩
    · rintro a ha _ rfl
      exact hpre a ha
    · rintro a (ha | rfl) _ rfl
      · exact (hpre a ha).trans hlt
      · exact hlt
  · intro id hid
    simp only [Arena.grow, List.length_append, List.length_set, List.length_singleton]
    rcases List.mem_append.mp hid with hid | hid
    · have := h.bounded id (by simp at hid ⊢; tauto)
      omega
    · have := List.mem_singleton.mp hid
      omega

theorem ChainOk.last_of_next (h : ChainOk arena (pre ++ arena.currentBlock :: post))
    (hblock : arena.blocks[arena.currentBlock]? = some block) (hnext : block.next = none) : post = [] := by
  have hsuffix := h.linked.suffix.2
  rw [nextOf, hblock, Option.bind_some, hnext] at hsuffix
  exact hsuffix.unique (show Linked _ none [] from rfl)

theorem BlocksOk.grow (h : BlocksOk arena) (hblock : arena.blocks[arena.currentBlock]? = some block)
    (hplaced : Placed arena.blocks newBlock.region) : BlocksOk (arena.grow block newBlock) := by
  have hregions : (arena.grow block newBlock).blocks.map ArenaBlock.region =
      arena.blocks.map ArenaBlock.region ++ [newBlock.region] := by
    have hset : (arena.blocks.set arena.currentBlock { block with next := some arena.blocks.length }).map
        ArenaBlock.region = arena.blocks.map ArenaBlock.region := map_set_of_eq ArenaBlock.region hblock rfl
    rw [Arena.grow, List.map_append, hset, List.map_singleton]
  have hapart : ((arena.grow block newBlock).blocks.map ArenaBlock.region).Pairwise Region.Apart := by
    rw [hregions, List.pairwise_append]
    refine ⟨h.apart, List.pairwise_singleton _ _, ?_⟩
    intro r hr t ht
    obtain ⟨b, hb, rfl⟩ := List.mem_map.mp hr
    rw [List.mem_singleton.mp ht]
    exact (hplaced.2 b hb).symm
  have hinside : ∀ r ∈ (arena.grow block newBlock).blocks.map ArenaBlock.region, r.Inside ⟨1, 2 ^ 64 - 1⟩ := by
    intro r hr
    rw [hregions, List.mem_append, List.mem_singleton] at hr
    rcases hr with hr | rfl
    · exact h.inside r hr
    · exact hplaced.1
  refine ⟨hapart, hinside, ?_⟩
  have hbound := sum_size_le hapart hinside
  have htotal := h.total
  rw [hregions, List.map_append, List.sum_append] at hbound ⊢
  rw [Arena.grow, BitVec.toNat_add, htotal, Nat.mod_eq_of_lt]
  · simp [ArenaBlock.region]
  · simp only [ArenaBlock.region, List.map_singleton, List.sum_singleton] at hbound ⊢
    omega

theorem akArenaReset_spec (h : ChainOk arena chain) :
    ∃ blocks, akArenaReset arena = some { arena with blocks, currentBlock := arena.firstBlock, totalUsed := 0 } ∧
      Cleared arena.blocks chain blocks := by
  obtain ⟨blocks, hclear, hcleared⟩ := clearUsed_spec h.linked h.bounded h.fuel 0
  refine ⟨blocks, ?_, hcleared⟩
  rw [akArenaReset, hclear]
  rfl

theorem ChainOk.after (h : ChainOk arena (pre ++ mark.block :: post)) : ∀ id ∈ post, mark.block < id :=
  (List.pairwise_cons.mp (List.pairwise_append.mp h.ascending).2.1).1

theorem akArenaRestore_on_chain (h : ChainOk arena (pre ++ mark.block :: post))
    (hblock : arena.blocks[mark.block]? = some block) (hnum : block.blockNum = mark.blockNum) :
    ∃ blocks, akArenaRestore arena mark = some
        { arena with
          blocks := blocks.set mark.block { block with used := mark.offset }
          currentBlock := mark.block
          totalUsed := arena.totalUsed - ((post.map (usedAt arena.blocks)).sum + (block.used - mark.offset)) } ∧
      Cleared arena.blocks post blocks ∧ blocks[mark.block]? = some block := by
  have hlinked : Linked (nextOf arena.blocks) block.next post := by
    have hsuffix := h.linked.suffix.2
    rw [nextOf, hblock] at hsuffix
    exact hsuffix
  have hbounded : ∀ id ∈ post, id < arena.blocks.length := fun id hid => h.bounded id (by simp [hid])
  obtain ⟨blocks, hclear, hcleared⟩ :=
    clearUsed_spec hlinked hbounded (length_le_of_bounded hlinked.nodup hbounded) 0
  have hkeep : blocks[mark.block]? = some block := by
    rw [hcleared.same _ fun hid => lt_irrefl _ (h.after _ hid), hblock]
  refine ⟨blocks, ?_, hcleared, hkeep⟩
  rw [zero_add] at hclear
  rw [akArenaRestore]
  simp only [hblock, bind, Option.bind, hnum, ne_eq, not_true, if_false, findBlock_spec h.linked h.bounded h.fuel,
    List.mem_append, List.mem_cons_self, or_true, decide_true, Bool.not_true, Bool.false_eq_true, hclear, hkeep]

theorem akArenaRestore_off_chain (h : ChainOk arena chain) (hblock : arena.blocks[mark.block]? = some block)
    (hoff : block.blockNum = mark.blockNum → mark.block ∉ chain) : akArenaRestore arena mark = some arena := by
  rw [akArenaRestore]
  simp only [hblock, bind, Option.bind]
  split_ifs with hnum
  · rfl
  · rw [findBlock_spec h.linked h.bounded h.fuel]
    simp [hoff (not_not.mp hnum)]

theorem akArenaRestore_cases (h : ChainOk arena chain) (hmark : mark.block < arena.blocks.length) :
    akArenaRestore arena mark = some arena ∨ ∃ pre post block, chain = pre ++ mark.block :: post ∧
      arena.blocks[mark.block]? = some block ∧ block.blockNum = mark.blockNum := by
  obtain ⟨block, hblock⟩ := exists_block hmark
  by_cases hon : block.blockNum = mark.blockNum ∧ mark.block ∈ chain
  · obtain ⟨pre, post, hchain⟩ := List.append_of_mem hon.2
    exact .inr ⟨pre, post, block, hchain, hblock, hon.1⟩
  · exact .inl (akArenaRestore_off_chain h hblock fun hnum hmem => hon ⟨hnum, hmem⟩)

theorem akArenaRestore_spec (h : ChainOk arena chain) (hmark : mark.block < arena.blocks.length) :
    ∃ arena', akArenaRestore arena mark = some arena' ∧
      (arena' = arena ∨ mark.block ∈ chain ∧ ∃ blocks totalUsed,
        arena' = { arena with blocks, currentBlock := mark.block, totalUsed } ∧
        blocks.map shape = arena.blocks.map shape ∧
        (∀ id ∈ chain, id < mark.block → blocks[id]? = arena.blocks[id]?) ∧
        (∀ (id : Nat) block, blocks[id]? = some block → block.used = 0 ∨ arena.blocks[id]? = some block ∨ id = mark.block) ∧
        (blocks[mark.block]?).map ArenaBlock.used = some mark.offset) := by
  rcases akArenaRestore_cases h hmark with hnothing | ⟨pre, post, block, rfl, hblock, hnum⟩
  · exact ⟨arena, hnothing, .inl rfl⟩
  · obtain ⟨blocks, hrestore, hcleared, hkeep⟩ := akArenaRestore_on_chain h hblock hnum
    refine ⟨_, hrestore, .inr ⟨by simp, _, _, rfl, ?_, ?_, ?_, ?_⟩⟩
    · refine (map_set_of_eq shape hkeep ?_).trans hcleared.shapes
      rfl
    · intro id _ hlt
      rw [List.getElem?_set_ne (by omega), hcleared.same]
      intro hid
      have := h.after id hid
      omega
    · intro id b hb
      by_cases hid : id = mark.block
      · exact .inr (.inr hid)
      · rw [List.getElem?_set_ne (Ne.symm hid)] at hb
        rcases hcleared.kept hb with hused | hold
        · exact .inl hused
        · exact .inr (.inl hold)
    · rw [List.getElem?_set_self (List.getElem?_eq_some_iff.mp hkeep).1]
      rfl

end Chain

/-- Which arenas have all their blocks on the chain, so that freeing the arena
releases each of them once, and report their sizes right. -/
def Intact (arena : Arena) : Prop :=
  ∃ chain, Linked (nextOf arena.blocks) (some arena.firstBlock) chain ∧ (∀ id < arena.blocks.length, id ∈ chain) ∧
    akArenaFree arena = some chain ∧ chain.Nodup ∧
    arena.totalAllocated.toNat = (chain.map fun id => ((arena.blocks[id]?).map (·.size.toNat)).getD 0).sum

def KeepsNext (s : Session) : Call → Prop
  | .request request grant => ∀ block, s.arena.blocks[s.arena.currentBlock]? = some block →
      answers block request = true ∨ grant = none ∨ block.next = none
  | _ => True

def KeepingStep (s : Session) (calls : List Call) (s' : Session) : Prop :=
  Step s calls s' ∧ ∀ call ∈ calls, KeepsNext s call

/-- No call on the arena goes through a dangling pointer or round in a circle. -/
def CallsReturn (s : Session) : Prop :=
  (∀ request grant, ∃ r, s.arena.serve request grant = some r) ∧ (∃ arena, akArenaReset s.arena = some arena) ∧
    (∃ mark, akArenaSnapshot s.arena = some mark) ∧
    ∀ mark ∈ s.marks, ∃ arena, akArenaRestore s.arena mark.1 = some arena

section Sessions

variable {s s' s₀ : Session} {chain : List Nat} {calls : List Call}

structure SessionOk (s : Session) (chain : List Nat) : Prop where
  chain : ChainOk s.arena chain
  blocks : BlocksOk s.arena
  marks : ∀ mark ∈ s.marks, mark.1.block < s.arena.blocks.length

theorem SessionOk.reshape {arena : Arena} {live : List Allocation} {clock : Nat} (h : SessionOk s chain)
    (hshape : arena.blocks.map shape = s.arena.blocks.map shape) (hfirst : arena.firstBlock = s.arena.firstBlock)
    (htotal : arena.totalAllocated = s.arena.totalAllocated) (hcurrent : arena.currentBlock ∈ chain) :
    SessionOk ⟨arena, live, s.marks, clock⟩ chain := by
  refine ⟨h.chain.reshape hshape hfirst hcurrent, h.blocks.reshape hshape htotal, fun mark hmark => ?_⟩
  show mark.1.block < arena.blocks.length
  rw [length_congr hshape]
  exact h.marks mark hmark

theorem SessionOk.grown {block newBlock : ArenaBlock} {live : List Allocation} {clock : Nat}
    {pre post : List Nat} (h : SessionOk s (pre ++ s.arena.currentBlock :: post))
    (hblock : s.arena.blocks[s.arena.currentBlock]? = some block) (hnew : newBlock.next = none)
    (hplaced : Placed s.arena.blocks newBlock.region) (alignedOffset needed size : Size) :
    SessionOk ⟨((s.arena.grow block newBlock).take newBlock alignedOffset needed size).2, live, s.marks, clock⟩
      (pre ++ [s.arena.currentBlock] ++ [s.arena.blocks.length]) := by
  have hshape := take_shape (grow_current s.arena block newBlock) alignedOffset needed size
  have hchain : ChainOk (s.arena.grow block newBlock) (pre ++ [s.arena.currentBlock] ++ [s.arena.blocks.length]) :=
    h.chain.grow hnew
  refine ⟨hchain.reshape hshape rfl hchain.current, (h.blocks.grow hblock hplaced).reshape hshape rfl, ?_⟩
  intro mark hmark
  have hlt := h.marks mark hmark
  show mark.1.block < _
  rw [length_congr hshape]
  simp only [Arena.grow, List.length_append, List.length_set, List.length_singleton]
  omega

/-- Every step keeps a chain, and keeps it whole when it overwrites no link. -/
theorem SessionOk.step (h : SessionOk s chain) (hs : Step s calls s') :
    ∃ chain', SessionOk s' chain' ∧ ((∀ call ∈ calls, KeepsNext s call) →
      (∀ id < s.arena.blocks.length, id ∈ chain) → ∀ id < s'.arena.blocks.length, id ∈ chain') := by
  cases hs with
  | request request grant result arena hgrant hserve =>
      obtain ⟨block, hblock⟩ := h.chain.has_block
      have hshape_set : ∀ used, (s.arena.blocks.set s.arena.currentBlock { block with used }).map shape =
          s.arena.blocks.map shape := by
        intro used
        apply map_set_of_eq shape hblock
        rfl
      cases serve_served hblock hserve with
      | refused => exact ⟨chain, h.reshape rfl rfl rfl h.chain.current, fun _ hall => hall⟩
      | denied => exact ⟨chain, h.reshape rfl rfl rfl h.chain.current, fun _ hall => hall⟩
      | kept => exact ⟨chain, h.reshape rfl rfl rfl h.chain.current, fun _ hall => hall⟩
      | extended =>
          refine ⟨chain, h.reshape (hshape_set _) rfl rfl h.chain.current, fun _ hall => ?_⟩
          simpa using hall
      | taken _ _ _ _ took htook =>
          subst htook
          refine ⟨chain, h.reshape (hshape_set _) rfl rfl h.chain.current, fun _ hall => ?_⟩
          simpa [Arena.take] using hall
      | grown _ _ hfull data hdata newBlock hnew took htook =>
          subst htook
          have hplaced := hgrant data hdata
          have hregion : newBlock.region = ⟨data, (s.arena.newBlockSize request.bytes).toNat⟩ := by rw [hnew]; rfl
          rw [← hregion] at hplaced
          obtain ⟨pre, post, rfl⟩ := List.append_of_mem h.chain.current
          refine ⟨_, h.grown hblock (by rw [hnew]) hplaced _ _ _, fun hkeeps hall id hid => ?_⟩
          have hnext : block.next = none := by
            rcases hkeeps (.request request grant) (by simp) block hblock with hanswers | hnone | hnext
            · rw [hfull] at hanswers
              cases hanswers
            · rw [hdata] at hnone
              cases hnone
            · exact hnext
          have hpost := h.chain.last_of_next hblock hnext
          simp only [Arena.take, Arena.grow, List.length_set, List.length_append, List.length_singleton] at hid
          rcases Nat.lt_succ_iff_lt_or_eq.mp hid with hlt | rfl
          · have hmem := hall id hlt
            rw [hpost] at hmem
            exact List.mem_append_left _ hmem
          · simp
  | reset arena hreset =>
      obtain ⟨blocks, heq, hcleared⟩ := akArenaReset_spec h.chain
      obtain rfl := Option.some.inj (heq.symm.trans hreset)
      refine ⟨chain, h.reshape hcleared.shapes rfl rfl h.chain.first, fun _ hall => ?_⟩
      rwa [length_congr hcleared.shapes]
  | snapshot mark hsnapshot =>
      obtain ⟨block, hblock⟩ := h.chain.has_block
      simp only [akArenaSnapshot, hblock, bind, Option.bind] at hsnapshot
      cases hsnapshot
      refine ⟨chain, ⟨h.chain, h.blocks, ?_⟩, fun _ hall => hall⟩
      intro m hm
      rcases List.mem_cons.mp hm with rfl | hm
      · exact h.chain.bounded _ h.chain.current
      · exact h.marks m hm
  | restore mark taken arena hmark hrestore =>
      obtain ⟨arena', heq, hcases⟩ := akArenaRestore_spec h.chain (h.marks _ hmark)
      obtain rfl := Option.some.inj (heq.symm.trans hrestore)
      rcases hcases with rfl | ⟨hmem, blocks, totalUsed, rfl, hshape, -⟩
      · exact ⟨chain, h.reshape rfl rfl rfl h.chain.current, fun _ hall => hall⟩
      · refine ⟨chain, h.reshape hshape rfl rfl hmem, fun _ hall => ?_⟩
        rwa [length_congr hshape]

theorem SessionOk.start {blockSize : Size} (h : Fresh blockSize s) : SessionOk s [0] ∧ s.arena.blocks.length = 1 := by
  obtain ⟨granted, data, hnew, hlive, hmarks, hclock, hplaced⟩ := h
  rw [akArenaNew] at hnew
  split_ifs at hnew
  simp only [allocateBlock, Option.map_some, bind, Option.bind, Option.some.injEq] at hnew
  refine ⟨⟨?_, ?_, by simp [hmarks]⟩, by rw [← hnew]; rfl⟩
  · rw [← hnew]
    exact ⟨⟨rfl, rfl⟩, by simp, by simp, by simp⟩
  · rw [← hnew]
    exact ⟨List.pairwise_singleton _ _, by simpa [ArenaBlock.region] using hplaced.1, by simp [ArenaBlock.region]⟩

theorem SessionOk.intact (h : SessionOk s chain) (hall : ∀ id < s.arena.blocks.length, id ∈ chain) : Intact s.arena := by
  refine ⟨chain, h.chain.linked, hall, ?_, h.chain.linked.nodup, ?_⟩
  · exact freeBlockChain_spec h.chain.linked h.chain.bounded h.chain.fuel
  · have hperm : chain.Perm (List.range s.arena.blocks.length) := by
      rw [List.perm_ext_iff_of_nodup h.chain.linked.nodup List.nodup_range]
      intro id
      rw [List.mem_range]
      exact ⟨h.chain.bounded id, hall id⟩
    rw [h.blocks.total, (hperm.map _).sum_eq, List.map_map]
    congr 1
    apply List.ext_getElem
    · simp
    · intro i hi hi'
      rw [List.length_map] at hi
      simp [ArenaBlock.region, List.getElem?_eq_getElem hi]

theorem akArenaAllocAligned_returns {arena : Arena} (h : ChainOk arena chain) (size align : Size) (grant : Option Nat) :
    ∃ r, akArenaAllocAligned arena size align grant = some r := by
  obtain ⟨block, hblock⟩ := h.has_block
  rw [akArenaAllocAligned]
  simp only [hblock, bind, Option.bind]
  split_ifs
  · exact ⟨_, rfl⟩
  · exact ⟨_, rfl⟩
  · cases allocateBlock (arena.newBlockSize size) arena.nextBlockNum grant with
    | none => exact ⟨_, rfl⟩
    | some newBlock => exact ⟨_, rfl⟩
  · exact ⟨_, rfl⟩

theorem SessionOk.callsReturn (h : SessionOk s chain) : CallsReturn s := by
  obtain ⟨block, hblock⟩ := h.chain.has_block
  refine ⟨fun request grant => ?_, ?_, ?_, fun mark hmark => ?_⟩
  · cases request with
    | alloc size => exact akArenaAllocAligned_returns h.chain size _ grant
    | allocAligned size align => exact akArenaAllocAligned_returns h.chain size align grant
    | calloc nmemb size =>
        simp only [Arena.serve, akArenaCalloc]
        split_ifs
        · exact ⟨_, rfl⟩
        · exact ⟨_, rfl⟩
        · exact akArenaAllocAligned_returns h.chain _ _ grant
    | realloc ptr oldSize newSize =>
        cases ptr with
        | none =>
            simp only [Arena.serve, akArenaRealloc]
            split_ifs
            · exact ⟨_, rfl⟩
            · exact akArenaAllocAligned_returns h.chain _ _ grant
        | some ptr =>
            simp only [Arena.serve, akArenaRealloc, hblock, bind, Option.bind]
            split_ifs
            · exact ⟨_, rfl⟩
            · exact ⟨_, rfl⟩
            · exact ⟨_, rfl⟩
            · exact akArenaAllocAligned_returns h.chain _ _ grant
  · obtain ⟨blocks, hreset, -⟩ := akArenaReset_spec h.chain
    exact ⟨_, hreset⟩
  · rw [akArenaSnapshot, hblock]
    exact ⟨_, rfl⟩
  · obtain ⟨arena, hrestore, -⟩ := akArenaRestore_spec h.chain (h.marks mark hmark)
    exact ⟨arena, hrestore⟩

/-- Where no new block is hung on a block that has a successor, the chain keeps all
blocks, and every call on it returns. -/
theorem chain_intact_of_keepsNext {blockSize : Size} (hfresh : Fresh blockSize s₀)
    (hrun : Run KeepingStep s₀ calls s) : Intact s.arena ∧ CallsReturn s := by
  have hinv : ∃ chain, SessionOk s chain ∧ ∀ id < s.arena.blocks.length, id ∈ chain := by
    refine hrun.invariant (P := fun _ s => ∃ chain, SessionOk s chain ∧ ∀ id < s.arena.blocks.length, id ∈ chain) ?_ ?_
    · obtain ⟨hok, hone⟩ := SessionOk.start hfresh
      refine ⟨[0], hok, fun id hid => ?_⟩
      rw [hone, Nat.lt_one_iff] at hid
      simp [hid]
    · rintro _ s _ s' ⟨chain, hok, hall⟩ ⟨hs, hkeeps⟩
      obtain ⟨chain', hok', hall'⟩ := hok.step hs
      exact ⟨chain', hok', hall' hkeeps hall⟩
  obtain ⟨chain, hok, hall⟩ := hinv
  exact ⟨hok.intact hall, hok.callsReturn⟩

def oneBlock : Session := ⟨⟨[⟨4096, 64, 0, 0, none⟩], 0, 0, 64, 64, 0, 1⟩, [], [], 0⟩

theorem oneBlock_fresh : Fresh 64 oneBlock := ⟨true, 4096, rfl, rfl, rfl, rfl, by decide⟩

theorem reset_keeps_two_blocks : ∃ s₀ s calls, Fresh 64 s₀ ∧ Run KeepingStep s₀ calls s ∧
    s.arena.blocks.length = 2 ∧ Intact s.arena := by
  have r₁ : Run KeepingStep oneBlock _ _ := Run.next .start
    ⟨Step.request oneBlock (.alloc 40) none _ _ (by simp) rfl, by simp [KeepsNext]⟩
  have r₂ := r₁.next ⟨.request _ (.alloc 40) (some 8192) _ _ (by rintro _ ⟨⟩; decide) rfl, by
    intro call hcall
    rw [List.mem_singleton.mp hcall]
    rintro block ⟨⟩
    exact .inr (.inr rfl)⟩
  have r₃ := r₂.next ⟨.reset _ _ rfl, by simp [KeepsNext]⟩
  have r₄ := r₃.next ⟨.request _ (.alloc 40) (some 12288) _ _ (by rintro _ ⟨⟩; decide) rfl, by
    intro call hcall
    rw [List.mem_singleton.mp hcall]
    rintro block ⟨⟩
    exact .inl rfl⟩
  exact ⟨_, _, _, oneBlock_fresh, r₄, rfl, (chain_intact_of_keepsNext oneBlock_fresh r₄).1⟩

/-- With the same reset, a second growth of the first block drops the second one. -/
theorem reset_then_growth_loses_block :
    ∃ s₀ s calls, Fresh 64 s₀ ∧ Run Step s₀ calls s ∧ ¬ Intact s.arena := by
  have r₁ := Run.next .start (Step.request oneBlock (.alloc 40) none _ _ (by simp) rfl)
  have r₂ := r₁.next (.request _ (.alloc 40) (some 8192) _ _ (by rintro _ ⟨⟩; decide) rfl)
  have r₃ := r₂.next (.reset _ _ rfl)
  have r₄ := r₃.next (.request _ (.alloc 40) none _ _ (by simp) rfl)
  have r₅ := r₄.next (.request _ (.alloc 40) (some 12288) _ _ (by rintro _ ⟨⟩; decide) rfl)
  refine ⟨_, _, _, oneBlock_fresh, r₅, ?_⟩
  rintro ⟨chain, hlinked, hall, -⟩
  have hchain : chain = [0, 2] := hlinked.unique ⟨rfl, rfl, rfl⟩
  have hlost := hall 1 (by decide)
  rw [hchain] at hlost
  simp at hlost

end Sessions

end Ak24.ArenaChain
