import Ak24.ArenaArithmetic

namespace Ak24.ArenaUndo

open ArenaModel ArenaChain ArenaLive ArenaArithmetic Regions Chains Transition Words

structure Tallied (arena : Arena) (pre post : List Nat) : Prop where
  chain : ChainOk arena (pre ++ arena.currentBlock :: post)
  idle : ∀ id ∈ post, usedAt arena.blocks id = 0
  total : arena.totalUsed = ((pre ++ [arena.currentBlock]).map (usedAt arena.blocks)).sum

section Tallies

variable {arena arena' : Arena} {block newBlock : ArenaBlock} {pre post chain : List Nat} {mark : Mark}

theorem map_update_of_notMem {f : Nat → Size} {id : Nat} (h : id ∉ chain) (used : Size) :
    chain.map (Function.update f id used) = chain.map f := by
  apply List.map_congr_left
  intro i hi
  exact Function.update_of_ne (ne_of_mem_of_not_mem hi h) _ _

theorem Tallied.sum_chain (h : Tallied arena pre post) :
    arena.totalUsed = ((pre ++ arena.currentBlock :: post).map (usedAt arena.blocks)).sum := by
  have hidle : (post.map (usedAt arena.blocks)).sum = 0 := by
    apply List.sum_eq_zero
    intro used hused
    obtain ⟨id, hid, rfl⟩ := List.mem_map.mp hused
    exact h.idle id hid
  rw [h.total]
  simp only [List.map_append, List.map_cons, List.map_nil, List.sum_append, List.sum_cons, List.sum_nil, hidle]

theorem Tallied.notMem_pre (h : Tallied arena pre post) : arena.currentBlock ∉ pre := fun hmem =>
  List.disjoint_of_nodup_append h.chain.linked.nodup hmem List.mem_cons_self

theorem Tallied.notMem_post (h : Tallied arena pre post) : arena.currentBlock ∉ post :=
  (List.nodup_cons.mp (List.nodup_append.mp h.chain.linked.nodup).2.1).1

theorem Tallied.use (h : Tallied arena pre post) (hblock : arena.blocks[arena.currentBlock]? = some block)
    {used more : Size} (hused : used = block.used + more) :
    Tallied { arena with
      blocks := arena.blocks.set arena.currentBlock { block with used }
      totalUsed := arena.totalUsed + more } pre post := by
  have hlt := h.chain.bounded _ h.chain.current
  refine ⟨h.chain.reshape (set_shape hblock used) rfl h.chain.current, ?_, ?_⟩
  · intro id hid
    show usedAt (arena.blocks.set arena.currentBlock _) id = 0
    rw [usedAt_set hlt, Function.update_of_ne (ne_of_mem_of_not_mem hid h.notMem_post), h.idle id hid]
  · show arena.totalUsed + more =
      ((pre ++ [arena.currentBlock]).map (usedAt (arena.blocks.set arena.currentBlock _))).sum
    rw [h.total, usedAt_set hlt, List.map_append, List.map_append, map_update_of_notMem h.notMem_pre, List.sum_append,
      List.sum_append, List.map_singleton, List.map_singleton, List.sum_singleton, List.sum_singleton,
      Function.update_self, usedAt_of_get hblock, add_assoc, ← hused]

theorem grown_blocks (arena : Arena) (block newBlock : ArenaBlock) (alignedOffset needed size : Size) :
    ((arena.grow block newBlock).take newBlock alignedOffset needed size).2.blocks =
      arena.blocks.set arena.currentBlock { block with next := some arena.blocks.length } ++
        [{ newBlock with used := alignedOffset + size }] := by
  simp only [Arena.take, Arena.grow]
  rw [List.set_append_right _ _ (by rw [List.length_set]), List.length_set, Nat.sub_self, List.set_cons_zero]

theorem usedAt_append (blocks : List ArenaBlock) (newBlock : ArenaBlock) :
    usedAt (blocks ++ [newBlock]) = Function.update (usedAt blocks) blocks.length newBlock.used := by
  funext id
  rcases Nat.lt_trichotomy id blocks.length with hlt | rfl | hgt
  · rw [Function.update_of_ne hlt.ne, usedAt, usedAt, List.getElem?_append_left hlt]
  · simp [usedAt]
  · rw [Function.update_of_ne hgt.ne', usedAt, usedAt, List.getElem?_eq_none (by simpa using hgt),
      List.getElem?_eq_none hgt.le]

theorem usedAt_grown (hblock : arena.blocks[arena.currentBlock]? = some block) (newBlock : ArenaBlock) (size : Size) :
    usedAt ((arena.grow block newBlock).take newBlock 0 size size).2.blocks =
      Function.update (usedAt arena.blocks) arena.blocks.length size := by
  rw [grown_blocks, usedAt_append, usedAt_set (List.getElem?_eq_some_iff.mp hblock).1, List.length_set, zero_add]
  congr 1
  rw [Function.update_eq_self_iff, usedAt_of_get hblock]

theorem Tallied.grown (h : Tallied arena pre post) (hblock : arena.blocks[arena.currentBlock]? = some block)
    (hnext : newBlock.next = none) (size : Size) :
    Tallied ((arena.grow block newBlock).take newBlock 0 size size).2 (pre ++ [arena.currentBlock]) [] := by
  have hgrown : ChainOk (arena.grow block newBlock) (pre ++ [arena.currentBlock] ++ [arena.blocks.length]) :=
    h.chain.grow hnext
  have hnew : arena.blocks.length ∉ pre ++ [arena.currentBlock] := by
    intro hmem
    have hlt := h.chain.bounded arena.blocks.length (by simp at hmem ⊢; tauto)
    exact lt_irrefl _ hlt
  refine ⟨hgrown.reshape (take_shape (grow_current arena block newBlock) _ _ _) rfl hgrown.current, nofun, ?_⟩
  rw [usedAt_grown hblock]
  show arena.totalUsed + size = ((pre ++ [arena.currentBlock] ++ [arena.blocks.length]).map _).sum
  rw [List.map_append, map_update_of_notMem hnew, List.sum_append, ← h.total, List.map_singleton, List.sum_singleton,
    Function.update_self]

structure Restored (arena : Arena) (mark : Mark) (pre post : List Nat) (restored : Arena) : Prop where
  tallied : Tallied restored pre post
  current : restored.currentBlock = mark.block
  shapes : restored.blocks.map shape = arena.blocks.map shape
  marked : usedAt restored.blocks mark.block = mark.offset
  others : ∀ id ∉ mark.block :: post, usedAt restored.blocks id = usedAt arena.blocks id

theorem restore_restored (mark : Mark) (h : ChainOk arena (pre ++ mark.block :: post))
    (htotal : arena.totalUsed = ((pre ++ mark.block :: post).map (usedAt arena.blocks)).sum)
    (hblock : arena.blocks[mark.block]? = some block) (hnum : block.blockNum = mark.blockNum) :
    ∃ restored, akArenaRestore arena mark = some restored ∧ Restored arena mark pre post restored := by
  obtain ⟨blocks, hrestore, hcleared, hkeep⟩ := akArenaRestore_on_chain h hblock hnum
  have hlt := (List.getElem?_eq_some_iff.mp hkeep).1
  have hnodup := h.linked.nodup
  have hsplit : mark.block ∉ post := (List.nodup_cons.mp (List.nodup_append.mp hnodup).2.1).1
  have hshapes : (blocks.set mark.block { block with used := mark.offset }).map shape = arena.blocks.map shape :=
    (set_shape hkeep mark.offset).trans hcleared.shapes
  have hused : usedAt (blocks.set mark.block { block with used := mark.offset }) =
      Function.update (usedAt blocks) mark.block mark.offset := usedAt_set hlt _
  have hothers : ∀ id ∉ mark.block :: post,
      usedAt (blocks.set mark.block { block with used := mark.offset }) id = usedAt arena.blocks id := by
    intro id hid
    rw [List.mem_cons, not_or] at hid
    rw [hused, Function.update_of_ne hid.1, usedAt, usedAt, hcleared.same id hid.2]
  refine ⟨_, hrestore, ⟨h.reshape hshapes rfl (by simp), ?_, ?_⟩, rfl, hshapes, ?_, hothers⟩
  · intro id hid
    show usedAt (blocks.set mark.block _) id = 0
    rw [hused, Function.update_of_ne (ne_of_mem_of_not_mem hid hsplit), hcleared.zero id hid]
  · have hpre : pre.map (usedAt (blocks.set mark.block { block with used := mark.offset })) =
        pre.map (usedAt arena.blocks) := by
      apply List.map_congr_left
      intro id hid
      exact hothers id (List.disjoint_of_nodup_append hnodup hid)
    show arena.totalUsed - ((post.map (usedAt arena.blocks)).sum + (block.used - mark.offset)) =
      ((pre ++ [mark.block]).map (usedAt (blocks.set mark.block _))).sum
    rw [htotal, List.map_append, List.map_append, hpre, hused, List.map_singleton, Function.update_self, List.map_cons,
      usedAt_of_get hblock, List.sum_append, List.sum_append, List.sum_cons, List.sum_singleton]
    abel
  · show usedAt (blocks.set mark.block _) mark.block = mark.offset
    rw [hused, Function.update_self]

end Tallies

structure Since (arena : Arena) (pre : List Nat) (later : Arena) (pre' : List Nat) : Prop where
  numbers : arena.blocks.map ArenaBlock.blockNum <+: later.blocks.map ArenaBlock.blockNum
  fresh : ∃ new, pre' ++ [later.currentBlock] = pre ++ [arena.currentBlock] ++ new ∧
    ∀ id ∈ new, arena.blocks.length ≤ id
  kept : ∀ id < arena.blocks.length, id ≠ arena.currentBlock → usedAt later.blocks id = usedAt arena.blocks id

/-- Requests and scopes, each of which ends with a restore to the mark it began with. -/
inductive Scoped : Arena → Arena → Prop
  | done (arena : Arena) : Scoped arena arena
  | request (arena next later : Arena) (request : Request) (grant result : Option Nat)
    (hserve : arena.serve request grant = some (result, next)) (hrest : Scoped next later) : Scoped arena later
  | scope (arena inner left later : Arena) (mark : Mark) (hsnapshot : akArenaSnapshot arena = some mark)
    (hinner : Scoped arena inner) (hrestore : akArenaRestore inner mark = some left) (hrest : Scoped left later) :
    Scoped arena later

section Scopes

variable {arena mid later next : Arena} {pre pre' pre'' post post' : List Nat} {mark : Mark} {block : ArenaBlock}
  {request : Request} {grant result : Option Nat}

theorem field_eq_of_grown {β : Type} {f : ArenaBlock → β} {blocks blocks' : List ArenaBlock} {id : Nat}
    {block block' : ArenaBlock} (h : blocks.map f <+: blocks'.map f) (hid : blocks[id]? = some block)
    (hid' : blocks'[id]? = some block') : f block' = f block := by
  obtain ⟨more, hmore⟩ := h
  have hlt : id < (blocks.map f).length := by
    rw [List.length_map]
    exact (List.getElem?_eq_some_iff.mp hid).1
  have hget := congrArg (·[id]?) hmore
  simp only [List.getElem?_append_left hlt, List.getElem?_map, hid, hid', Option.map_some, Option.some.injEq] at hget
  exact hget.symm

theorem Since.length_le (h : Since arena pre later pre') : arena.blocks.length ≤ later.blocks.length := by
  simpa using h.numbers.length_le

theorem Since.current (h : Since arena pre later pre') :
    later.currentBlock = arena.currentBlock ∨ arena.blocks.length ≤ later.currentBlock := by
  obtain ⟨new, hnew, hold⟩ := h.fresh
  rcases List.eq_nil_or_concat new with rfl | ⟨new, id, rfl⟩
  · rw [List.append_nil] at hnew
    exact .inl (List.singleton_inj.mp (List.append_inj_right' hnew rfl))
  · rw [List.concat_eq_append, ← List.append_assoc] at hnew
    have hlast : later.currentBlock = id := List.singleton_inj.mp (List.append_inj_right' hnew rfl)
    rw [hlast]
    exact .inr (hold id (by simp))

theorem Since.trans (h : Since arena pre mid pre') (h' : Since mid pre' later pre'') : Since arena pre later pre'' := by
  obtain ⟨new, hnew, hold⟩ := h.fresh
  obtain ⟨new', hnew', hold'⟩ := h'.fresh
  have hle := h.length_le
  refine ⟨h.numbers.trans h'.numbers, ⟨new ++ new', ?_, ?_⟩, ?_⟩
  · rw [hnew', hnew, List.append_assoc]
  · intro id hid
    rcases List.mem_append.mp hid with hid | hid
    · exact hold id hid
    · exact hle.trans (hold' id hid)
  · intro id hid hne
    rw [← h.kept id hid hne]
    apply h'.kept id (hid.trans_le hle)
    rintro rfl
    rcases h.current with hsame | hnewer
    · exact hne hsame
    · omega

theorem Since.of_current (hshapes : later.blocks.map shape = arena.blocks.map shape)
    (hcurrent : later.currentBlock = arena.currentBlock)
    (hkept : ∀ id < arena.blocks.length, id ≠ arena.currentBlock →
      usedAt later.blocks id = usedAt arena.blocks id) : Since arena pre later pre := by
  have hnumbers := map_congr_of_shape (f := ArenaBlock.blockNum) (fun _ => rfl) hshapes
  exact ⟨by rw [hnumbers], ⟨[], by rw [hcurrent, List.append_nil], nofun⟩, hkept⟩

theorem serve_since (h : Tallied arena pre post) (hserve : arena.serve request grant = some (result, next)) :
    ∃ pre' post', Tallied next pre' post' ∧ Since arena pre next pre' := by
  obtain ⟨block, hblock⟩ := h.chain.has_block
  have hlt := h.chain.bounded _ h.chain.current
  have hkept : ∀ used, ∀ id < arena.blocks.length, id ≠ arena.currentBlock →
      usedAt (arena.blocks.set arena.currentBlock { block with used }) id = usedAt arena.blocks id := by
    intro used id _ hne
    rw [usedAt_set hlt, Function.update_of_ne hne]
  cases serve_served hblock hserve with
  | refused | kept => exact ⟨pre, post, h, .of_current rfl rfl fun _ _ _ => rfl⟩
  | denied => exact ⟨pre, post, ⟨h.chain.reshape rfl rfl h.chain.current, h.idle, h.total⟩,
      .of_current rfl rfl fun _ _ _ => rfl⟩
  | extended ptr oldSize newSize =>
      exact ⟨pre, post, h.use hblock rfl, .of_current (set_shape hblock _) rfl (hkept _)⟩
  | taken hexact hpos halign hroom took htook =>
      subst htook
      refine ⟨pre, post, h.use hblock ?_, .of_current (set_shape hblock _) rfl (hkept _)⟩
      rw [ArenaBlock.needed]
      abel
  | grown hexact hpos hfull data hdata newBlock hnew took htook =>
      subst htook
      refine ⟨_, _, h.grown hblock (by rw [hnew]) _, ?_, ⟨[arena.blocks.length], rfl, ?_⟩, ?_⟩
      · rw [grown_blocks, List.map_append, map_set_of_eq ArenaBlock.blockNum hblock]
        · exact List.prefix_append _ _
        · rfl
      · intro id hid
        exact (List.mem_singleton.mp hid).ge
      · intro id hid _
        rw [usedAt_grown hblock, Function.update_of_ne hid.ne]

theorem Since.undo (h : Tallied arena pre post) (h' : Tallied later pre' post') (hsince : Since arena pre later pre')
    (hsnapshot : akArenaSnapshot arena = some mark) :
    ∃ restored post'', akArenaRestore later mark = some restored ∧ Tallied restored pre post'' ∧
      Since arena pre restored pre ∧ restored.currentBlock = arena.currentBlock ∧
      ∀ id < arena.blocks.length, usedAt restored.blocks id = usedAt arena.blocks id := by
  obtain ⟨block, hblock⟩ := h.chain.has_block
  have hlt := h.chain.bounded _ h.chain.current
  simp only [akArenaSnapshot, hblock, bind, Option.bind, Option.some.injEq] at hsnapshot
  subst hsnapshot
  obtain ⟨block', hblock'⟩ : ∃ block', later.blocks[arena.currentBlock]? = some block' :=
    exists_block (hlt.trans_le hsince.length_le)
  have hnum : block'.blockNum = block.blockNum := field_eq_of_grown hsince.numbers hblock hblock'
  obtain ⟨new, hnew, hold⟩ := hsince.fresh
  have hchain : pre' ++ later.currentBlock :: post' = pre ++ arena.currentBlock :: (new ++ post') := by
    have happend := congrArg (· ++ post') hnew
    simpa using happend
  have hok := h'.chain
  have htotal := h'.sum_chain
  rw [hchain] at hok htotal
  obtain ⟨restored, hrestore, hrestored⟩ := restore_restored ⟨arena.currentBlock, block.used, block.blockNum⟩ hok
    htotal hblock' hnum
  have hused : ∀ id < arena.blocks.length, usedAt restored.blocks id = usedAt arena.blocks id := by
    intro id hid
    by_cases hcur : id = arena.currentBlock
    · subst hcur
      rw [hrestored.marked, usedAt_of_get hblock]
    · rw [← hsince.kept id hid hcur]
      by_cases hpost : id ∈ new ++ post'
      · rw [hrestored.tallied.idle id hpost]
        rcases List.mem_append.mp hpost with hmem | hmem
        · exact absurd (hold id hmem) (not_le.mpr hid)
        · exact (h'.idle id hmem).symm
      · exact hrestored.others id (by simp [hcur, hpost])
  refine ⟨restored, _, hrestore, hrestored.tallied, ⟨?_, ⟨[], ?_, by simp⟩, fun id hid _ => hused id hid⟩,
    hrestored.current, hused⟩
  · rw [map_congr_of_shape (f := ArenaBlock.blockNum) (fun _ => rfl) hrestored.shapes]
    exact hsince.numbers
  · rw [hrestored.current, List.append_nil]

theorem Scoped.since (hscoped : Scoped arena later) (h : Tallied arena pre post) :
    ∃ pre' post', Tallied later pre' post' ∧ Since arena pre later pre' := by
  induction hscoped generalizing pre post with
  | done arena => exact ⟨pre, post, h, .of_current rfl rfl fun _ _ _ => rfl⟩
  | request arena next later request grant result hserve hrest ih =>
      obtain ⟨pre₁, post₁, h₁, hsince₁⟩ := serve_since h hserve
      obtain ⟨pre₂, post₂, h₂, hsince₂⟩ := ih h₁
      exact ⟨pre₂, post₂, h₂, hsince₁.trans hsince₂⟩
  | scope arena inner left later mark hsnapshot hinner hrestore hrest ihinner ihrest =>
      obtain ⟨pre₁, post₁, h₁, hsince₁⟩ := ihinner h
      obtain ⟨restored, post₂, heq, h₂, hsince₂, -⟩ := hsince₁.undo h h₁ hsnapshot
      obtain rfl := Option.some.inj (heq.symm.trans hrestore)
      obtain ⟨pre₃, post₃, h₃, hsince₃⟩ := ihrest h₂
      exact ⟨pre₃, post₃, h₃, hsince₂.trans hsince₃⟩

end Scopes

def Sized : Call → Prop
  | .request request _ => wanted request < 2 ^ 62
  | _ => True

def SizedStep (s : Session) (calls : List Call) (s' : Session) : Prop :=
  Step s calls s' ∧ ∀ call ∈ calls, Sized call

structure RoomOk (s : Session) : Prop where
  used : ∀ block ∈ s.arena.blocks, block.used ≤ block.size
  marks : ∀ mark ∈ s.marks, ∀ block, s.arena.blocks[mark.1.block]? = some block → mark.1.offset ≤ block.size

section Sessions

variable {s s' s₀ : Session} {arena : Arena} {chain pre post : List Nat} {calls : List Call} {blockSize : Size}

theorem Tallied.reset (h : ChainOk s.arena chain) (hreset : akArenaReset s.arena = some arena) :
    ∃ post, Tallied arena [] post := by
  obtain ⟨blocks, heq, hcleared⟩ := akArenaReset_spec h
  obtain rfl := Option.some.inj (heq.symm.trans hreset)
  cases chain with
  | nil => exact absurd h.current List.not_mem_nil
  | cons first chain =>
      obtain rfl : s.arena.firstBlock = first := Option.some.inj h.linked.1
      refine ⟨chain, h.reshape hcleared.shapes rfl h.first, ?_, ?_⟩
      · intro id hid
        exact hcleared.zero id (List.mem_cons_of_mem _ hid)
      · show 0 = ([s.arena.firstBlock].map (usedAt blocks)).sum
        rw [List.map_singleton, List.sum_singleton, hcleared.zero _ List.mem_cons_self]

theorem Tallied.restore {mark : Mark} (h : Tallied s.arena pre post) (hmark : mark.block < s.arena.blocks.length)
    (hrestore : akArenaRestore s.arena mark = some arena) : ∃ pre' post', Tallied arena pre' post' := by
  rcases akArenaRestore_cases h.chain hmark with hnothing | ⟨pre', post', block, hchain, hblock, hnum⟩
  · obtain rfl := Option.some.inj (hnothing.symm.trans hrestore)
    exact ⟨pre, post, h⟩
  · have hok := h.chain
    have htotal := h.sum_chain
    rw [hchain] at hok htotal
    obtain ⟨restored, heq, hrestored⟩ := restore_restored mark hok htotal hblock hnum
    obtain rfl := Option.some.inj (heq.symm.trans hrestore)
    exact ⟨pre', post', hrestored.tallied⟩

theorem Tallied.step (h : Tallied s.arena pre post) (hok : SessionOk s chain) (hs : Step s calls s') :
    ∃ pre' post', Tallied s'.arena pre' post' := by
  cases hs with
  | request request grant result arena hgrant hserve =>
      obtain ⟨pre', post', h', -⟩ := serve_since h hserve
      exact ⟨pre', post', h'⟩
  | reset arena hreset =>
      obtain ⟨post', h'⟩ := Tallied.reset hok.chain hreset
      exact ⟨[], post', h'⟩
  | snapshot mark hsnapshot => exact ⟨pre, post, h⟩
  | restore mark taken arena hmark hrestore => exact h.restore (hok.marks _ hmark) hrestore

theorem bytes_le_wanted (request : Request) : request.bytes.toNat ≤ wanted request := by
  cases request with
  | calloc nmemb size =>
      rw [Request.bytes, BitVec.toNat_mul]
      exact Nat.mod_le _ _
  | alloc | allocAligned | realloc => exact le_rfl

theorem RoomOk.carry {live : List Allocation} {clock : Nat} (h : RoomOk s) (hok : SessionOk s chain)
    (hsizes : s.arena.blocks.map ArenaBlock.size <+: arena.blocks.map ArenaBlock.size)
    (hused : ∀ block ∈ arena.blocks, block.used ≤ block.size) : RoomOk ⟨arena, live, s.marks, clock⟩ := by
  refine ⟨hused, fun mark hmark block hblock => ?_⟩
  obtain ⟨old, hold⟩ := exists_block (hok.marks mark hmark)
  rw [field_eq_of_grown hsizes hold hblock]
  exact h.marks mark hmark old hold

theorem RoomOk.use {live : List Allocation} {clock : Nat} {block : ArenaBlock} {used totalUsed : Size} (h : RoomOk s)
    (hok : SessionOk s chain) (hblock : s.arena.blocks[s.arena.currentBlock]? = some block) (hle : used ≤ block.size) :
    RoomOk ⟨{ s.arena with blocks := s.arena.blocks.set s.arena.currentBlock { block with used }, totalUsed }, live,
      s.marks, clock⟩ := by
  refine h.carry hok ?_ ?_
  · rw [map_congr_of_shape (f := ArenaBlock.size) (fun _ => rfl) (set_shape hblock used)]
  · intro b hb
    rcases List.mem_or_eq_of_mem_set hb with hb | rfl
    · exact h.used b hb
    · exact hle

theorem RoomOk.cleared {blocks : List ArenaBlock} (h : RoomOk s) (hcleared : Cleared s.arena.blocks chain blocks) :
    ∀ block ∈ blocks, block.used ≤ block.size := by
  intro block hblock
  obtain ⟨id, hid⟩ := List.mem_iff_getElem?.mp hblock
  rcases hcleared.kept hid with hzero | hsame
  · rw [hzero, BitVec.le_def]
    exact Nat.zero_le _
  · exact h.used block (List.mem_of_getElem? hsame)

theorem RoomOk.request {request : Request} {grant result : Option Nat} {live : List Allocation} {clock : Nat}
    (h : RoomOk s) (hok : SessionOk s chain) (hpos : s.arena.blockSize ≠ 0)
    (hblockSize : s.arena.blockSize.toNat < 2 ^ 62) (hsized : wanted request < 2 ^ 62)
    (hserve : s.arena.serve request grant = some (result, arena)) : RoomOk ⟨arena, live, s.marks, clock⟩ := by
  obtain ⟨block, hblock⟩ := hok.chain.has_block
  cases serve_served hblock hserve with
  | refused | denied | kept => exact h.carry hok List.prefix_rfl h.used
  | extended ptr oldSize newSize hrequest hlt hextends =>
      rw [ArenaBlock.extends, decide_eq_true_eq] at hextends
      exact h.use hok hblock hextends.2
  | taken hexact hnonzero halign hroom took htook =>
      subst htook
      rw [lacksRoom_eq, decide_eq_false_iff_not, BitVec.not_lt] at hroom
      exact h.use hok hblock hroom
  | grown hexact hnonzero hfull data hdata newBlock hnew took htook =>
      subst htook
      have hbytes := bytes_le_wanted request
      have hfits : request.bytes ≤ newBlock.size := by
        rw [hnew, BitVec.le_def]
        exact (le_newBlockSize_iff hpos).mpr (.inr (by omega))
      refine h.carry hok ?_ ?_
      · rw [grown_blocks, List.map_append, map_set_of_eq ArenaBlock.size hblock]
        · exact List.prefix_append _ _
        · rfl
      · intro b hb
        rw [grown_blocks, List.mem_append, List.mem_singleton] at hb
        rcases hb with hb | rfl
        · rcases List.mem_or_eq_of_mem_set hb with hb | rfl
          · exact h.used b hb
          · exact h.used block (List.mem_of_getElem? hblock)
        · show 0 + request.bytes ≤ newBlock.size
          rwa [zero_add]

theorem RoomOk.restore {mark : Mark} {live : List Allocation} {clock : Nat} (h : RoomOk s) (hok : SessionOk s chain)
    (hmark : mark.block < s.arena.blocks.length)
    (hoffset : ∀ block, s.arena.blocks[mark.block]? = some block → mark.offset ≤ block.size)
    (hrestore : akArenaRestore s.arena mark = some arena) : RoomOk ⟨arena, live, s.marks, clock⟩ := by
  rcases akArenaRestore_cases hok.chain hmark with hnothing | ⟨pre, post, block, hchain, hblock, hnum⟩
  · obtain rfl := Option.some.inj (hnothing.symm.trans hrestore)
    exact h.carry hok List.prefix_rfl h.used
  · have hsplit := hok.chain
    rw [hchain] at hsplit
    obtain ⟨blocks, heq, hcleared, hkeep⟩ := akArenaRestore_on_chain hsplit hblock hnum
    obtain rfl := Option.some.inj (heq.symm.trans hrestore)
    refine h.carry hok ?_ ?_
    · have hshapes := (set_shape hkeep mark.offset).trans hcleared.shapes
      rw [map_congr_of_shape (f := ArenaBlock.size) (fun _ => rfl) hshapes]
    · intro b hb
      rcases List.mem_or_eq_of_mem_set hb with hb | rfl
      · exact h.cleared hcleared b hb
      · exact hoffset block hblock

theorem RoomOk.step (h : RoomOk s) (hok : SessionOk s chain) (hpos : s.arena.blockSize ≠ 0)
    (hblockSize : s.arena.blockSize.toNat < 2 ^ 62) (hs : SizedStep s calls s') : RoomOk s' := by
  obtain ⟨hstep, hsized⟩ := hs
  cases hstep with
  | request request grant result arena hgrant hserve =>
      exact h.request hok hpos hblockSize (hsized (.request request grant) (by simp)) hserve
  | reset arena hreset =>
      obtain ⟨blocks, heq, hcleared⟩ := akArenaReset_spec hok.chain
      obtain rfl := Option.some.inj (heq.symm.trans hreset)
      refine h.carry hok ?_ (h.cleared hcleared)
      rw [map_congr_of_shape (f := ArenaBlock.size) (fun _ => rfl) hcleared.shapes]
  | snapshot mark hsnapshot =>
      obtain ⟨block, hblock⟩ := hok.chain.has_block
      simp only [akArenaSnapshot, hblock, bind, Option.bind] at hsnapshot
      cases hsnapshot
      refine ⟨h.used, fun m hm b hb => ?_⟩
      rcases List.mem_cons.mp hm with rfl | hm
      · obtain rfl : block = b := Option.some.inj (hblock.symm.trans hb)
        exact h.used block (List.mem_of_getElem? hblock)
      · exact h.marks m hm b hb
  | restore mark taken arena hmark hrestore =>
      exact h.restore hok (hok.marks _ hmark) (h.marks _ hmark) hrestore

theorem sum_usedAt_le {blocks : List ArenaBlock} (hnodup : chain.Nodup) (hbounded : ∀ id ∈ chain, id < blocks.length) :
    (chain.map fun id => (usedAt blocks id).toNat).sum ≤ (blocks.map fun block => block.used.toNat).sum := by
  obtain ⟨ids, hperm, hsub⟩ : chain.Subperm (List.range blocks.length) :=
    hnodup.subperm fun id hid => List.mem_range.mpr (hbounded id hid)
  have hall : (List.range blocks.length).map (fun id => (usedAt blocks id).toNat) =
      blocks.map fun block => block.used.toNat := by
    apply List.ext_getElem
    · simp
    · intro i hi hi'
      rw [List.length_map] at hi'
      simp [usedAt, List.getElem?_eq_getElem hi']
  rw [← (hperm.map _).sum_eq, ← hall]
  exact (hsub.map _).sum_le_sum fun _ _ => Nat.zero_le _

end Sessions

def Accounted (arena : Arena) : Prop :=
  ∃ chain, Linked (nextOf arena.blocks) (some arena.firstBlock) chain ∧
    arena.totalUsed.toNat = (chain.map fun id => (usedAt arena.blocks id).toNat).sum

/-- A restore of the later arena to the mark brings back the total, the current block
and the used part of every block that was on the chain; the blocks behind the current
one are unused. -/
def Undoes (arena : Arena) (mark : Mark) (later : Arena) : Prop :=
  ∃ restored, akArenaRestore later mark = some restored ∧ restored.totalUsed = arena.totalUsed ∧
    restored.currentBlock = arena.currentBlock ∧
    (∀ chain, Linked (nextOf arena.blocks) (some arena.firstBlock) chain →
      ∀ id ∈ chain, usedAt restored.blocks id = usedAt arena.blocks id) ∧
    ∃ pre post, Linked (nextOf restored.blocks) (some restored.firstBlock) (pre ++ restored.currentBlock :: post) ∧
      ∀ id ∈ post, usedAt restored.blocks id = 0

section Runs

variable {s s₀ : Session} {arena later : Arena} {chain pre post : List Nat} {mark : Mark} {calls : List Call}
  {blockSize : Size}

theorem Tallied.accounted (h : Tallied s.arena pre post) (hok : SessionOk s chain) (hroom : RoomOk s) :
    Accounted s.arena := by
  refine ⟨_, h.chain.linked, ?_⟩
  have hused := sum_usedAt_le h.chain.linked.nodup h.chain.bounded
  have hsizes : (s.arena.blocks.map fun block => block.used.toNat).sum ≤ s.arena.totalAllocated.toNat := by
    rw [hok.blocks.total, List.map_map]
    apply List.sum_le_sum
    intro block hblock
    exact hroom.used block hblock
  have hword := s.arena.totalAllocated.isLt
  have hmap := List.map_map (f := usedAt s.arena.blocks) (g := BitVec.toNat) (l := pre ++ s.arena.currentBlock :: post)
  rw [h.sum_chain, toNat_sum_of_lt, hmap]
  · rfl
  · rw [hmap]
    exact (hused.trans hsizes).trans_lt hword

theorem Tallied.undoes (h : Tallied arena pre post) (hsnapshot : akArenaSnapshot arena = some mark)
    (hscoped : Scoped arena later) : Undoes arena mark later := by
  obtain ⟨pre', post', h', hsince⟩ := hscoped.since h
  obtain ⟨restored, post'', hrestore, htallied, -, hcurrent, hused⟩ := hsince.undo h h' hsnapshot
  refine ⟨restored, hrestore, ?_, hcurrent, ?_, pre, post'', htallied.chain.linked, htallied.idle⟩
  · rw [htallied.total, h.total, hcurrent]
    congr 1
    apply List.map_congr_left
    intro id hid
    apply hused
    apply h.chain.bounded
    simp only [List.mem_append, List.mem_cons, List.not_mem_nil, or_false] at hid ⊢
    tauto
  · intro chain hlinked id hid
    rw [hlinked.unique h.chain.linked] at hid
    exact hused id (h.chain.bounded id hid)

theorem tallied_of_run (hfresh : Fresh blockSize s₀) (hsize : blockSize.toNat < 2 ^ 62)
    (hrun : Run SizedStep s₀ calls s) :
    (∃ chain, SessionOk s chain) ∧ (∃ pre post, Tallied s.arena pre post) ∧ RoomOk s ∧
      s.arena.blockSize = blockSize := by
  have hstart := hfresh
  obtain ⟨granted, data, hnew, -, hmarks, -⟩ := hstart
  rw [akArenaNew] at hnew
  split_ifs at hnew with hpos
  simp only [allocateBlock, Option.map_some, bind, Option.bind, Option.some.injEq] at hnew
  apply hrun.invariant (P := fun _ s => (∃ chain, SessionOk s chain) ∧ (∃ pre post, Tallied s.arena pre post) ∧
    RoomOk s ∧ s.arena.blockSize = blockSize)
  · obtain ⟨hok, -⟩ := SessionOk.start hfresh
    refine ⟨⟨[0], hok⟩, ⟨[], [], ?_, by simp, ?_⟩, ⟨?_, by simp [hmarks]⟩, by rw [← hnew]⟩
    · have hchain := hok.chain
      rw [← hnew] at hchain ⊢
      exact hchain
    · rw [← hnew]
      rfl
    · rw [← hnew]
      intro block hblock
      rw [List.mem_singleton.mp hblock, BitVec.le_def]
      exact Nat.zero_le _
  · rintro _ s _ s' ⟨⟨chain, hok⟩, ⟨pre, post, h⟩, hroom, heq⟩ hs
    obtain ⟨chain', hok', -⟩ := hok.step hs.1
    refine ⟨⟨chain', hok'⟩, h.step hok hs.1, hroom.step hok ?_ ?_ hs, ?_⟩
    · rwa [heq]
    · rwa [heq]
    · rw [blockSize_step hok hs.1, heq]

end Runs

/-- In every state the total is exact, and a snapshot of it undoes whatever requests and
scopes follow. -/
theorem restore_exact_undo {s₀ s : Session} {calls : List Call} {blockSize : Size} (hfresh : Fresh blockSize s₀)
    (hsize : blockSize.toNat < 2 ^ 62) (hrun : Run SizedStep s₀ calls s) :
    Accounted s.arena ∧ ∃ mark, akArenaSnapshot s.arena = some mark ∧
      ∀ later, Scoped s.arena later → Undoes s.arena mark later := by
  obtain ⟨⟨chain, hok⟩, ⟨pre, post, h⟩, hroom, -⟩ := tallied_of_run hfresh hsize hrun
  refine ⟨h.accounted hok hroom, ?_⟩
  obtain ⟨block, hblock⟩ := h.chain.has_block
  have hsnapshot : akArenaSnapshot s.arena = some ⟨s.arena.currentBlock, block.used, block.blockNum⟩ := by
    simp only [akArenaSnapshot, hblock, bind, Option.bind]
  exact ⟨_, hsnapshot, fun later hscoped => h.undoes hsnapshot hscoped⟩

/-- The requests behind the mark lead through three more blocks, one of which an inner
scope leaves and the next request drops from the chain. -/
theorem restore_exact_undo_dropped : ∃ s calls later, Fresh 64 oneBlock ∧ Run SizedStep oneBlock calls s ∧
    Scoped s.arena later ∧ later.blocks.length = 4 ∧ later.totalUsed = 136 ∧ Accounted s.arena ∧
    Undoes s.arena ⟨0, 40, 0⟩ later := by
  have r₁ : Run SizedStep oneBlock _ _ :=
    .next .start ⟨.request oneBlock (.alloc 40) none _ _ (by simp) rfl, by simp [Sized, wanted, Request.bytes]⟩
  have hscoped : Scoped ⟨[⟨4096, 64, 40, 0, none⟩], 0, 0, 64, 64, 40, 1⟩
      ⟨[⟨4096, 64, 40, 0, some 1⟩, ⟨8192, 64, 56, 1, some 3⟩, ⟨12288, 128, 0, 2, none⟩, ⟨16384, 64, 40, 3, none⟩],
        0, 3, 64, 320, 136, 4⟩ := by
    refine .request _ _ _ (.alloc 40) (some 8192) _ rfl ?_
    refine .scope _ _ _ _ _ rfl (.request _ _ _ (.alloc 100) (some 12288) _ rfl (.done _)) rfl ?_
    refine .request _ _ _ (.realloc (some 8192) 40 56) none _ rfl ?_
    exact .request _ _ _ (.alloc 40) (some 16384) _ rfl (.done _)
  obtain ⟨haccounted, mark, hsnapshot, hundoes⟩ := restore_exact_undo oneBlock_fresh (by decide) r₁
  obtain rfl : ⟨0, 40, 0⟩ = mark := Option.some.inj hsnapshot
  exact ⟨_, _, _, oneBlock_fresh, r₁, hscoped, rfl, rfl, haccounted, hundoes _ hscoped⟩

end Ak24.ArenaUndo
