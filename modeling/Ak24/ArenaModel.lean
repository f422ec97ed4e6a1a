import Ak24.Regions

namespace Ak24.ArenaModel

open Regions

abbrev Size := BitVec 64

structure ArenaBlock where
  data : Nat
  size : Size
  used : Size
  blockNum : Size
  next : Option Nat
  deriving DecidableEq, Repr

/-- `blocks` are all the blocks the arena ever obtained, on its chain or not. -/
structure Arena where
  blocks : List ArenaBlock
  firstBlock : Nat
  currentBlock : Nat
  blockSize : Size
  totalAllocated : Size
  totalUsed : Size
  nextBlockNum : Size
  deriving DecidableEq, Repr

structure Mark where
  block : Nat
  offset : Size
  blockNum : Size
  deriving DecidableEq, Repr

def alignUp (value align : Size) : Size := (value + align - 1) &&& ~~~(align - 1)

/-- `grant` is the address of the data, when both allocations succeed. -/
def allocateBlock (size blockNum : Size) (grant : Option Nat) : Option ArenaBlock :=
  grant.map fun data => ⟨data, size, 0, blockNum, none⟩

def akArenaNew (blockSize : Size) (granted : Bool) (grant : Option Nat) : Option Arena :=
  if blockSize = 0 then none
  else if !granted then none
  else do
    let block ← allocateBlock blockSize 0 grant
    some ⟨[block], 0, 0, blockSize, blockSize, 0, 1⟩

def ArenaBlock.needed (block : ArenaBlock) (size align : Size) : Size :=
  alignUp block.used align - block.used + size

def ArenaBlock.lacksRoom (block : ArenaBlock) (size align : Size) : Bool :=
  block.size < block.used + block.needed size align

def Arena.newBlockSize (arena : Arena) (size : Size) : Size :=
  if arena.blockSize < size then alignUp size arena.blockSize else arena.blockSize

def Arena.grow (arena : Arena) (block newBlock : ArenaBlock) : Arena :=
  { arena with
    blocks := arena.blocks.set arena.currentBlock { block with next := some arena.blocks.length } ++ [newBlock]
    currentBlock := arena.blocks.length
    totalAllocated := arena.totalAllocated + newBlock.size
    nextBlockNum := arena.nextBlockNum + 1 }

def Arena.take (arena : Arena) (block : ArenaBlock) (alignedOffset needed size : Size) : Option Nat × Arena :=
  (some (block.data + alignedOffset.toNat),
    { arena with
      blocks := arena.blocks.set arena.currentBlock { block with used := alignedOffset + size }
      totalUsed := arena.totalUsed + needed })

def validAlign (align : Size) : Bool := align ≠ 0 ∧ align &&& (align - 1) = 0

/-- `none` is an access through a dangling pointer, and the result of the call
is the returned pointer. -/
def akArenaAllocAligned (arena : Arena) (size align : Size) (grant : Option Nat) : Option (Option Nat × Arena) :=
  if size = 0 then some (none, arena)
  else if !validAlign align then some (none, arena)
  else do
    let block ← arena.blocks[arena.currentBlock]?
    if block.lacksRoom size align then
      match allocateBlock (arena.newBlockSize size) arena.nextBlockNum grant with
      | none => some (none, { arena with nextBlockNum := arena.nextBlockNum + 1 })
      | some newBlock => some ((arena.grow block newBlock).take newBlock 0 size size)
    else some (arena.take block (alignUp block.used align) (block.needed size align) size)

def defaultAlignment : Size := 8

def akArenaAlloc (arena : Arena) (size : Size) (grant : Option Nat) : Option (Option Nat × Arena) :=
  akArenaAllocAligned arena size defaultAlignment grant

def akArenaCalloc (arena : Arena) (nmemb size : Size) (grant : Option Nat) : Option (Option Nat × Arena) :=
  if nmemb = 0 ∨ size = 0 then some (none, arena)
  else
    let totalSize := nmemb * size
    if totalSize / nmemb ≠ size then some (none, arena) else akArenaAlloc arena totalSize grant

def ArenaBlock.extends (block : ArenaBlock) (ptr : Nat) (oldSize newSize : Size) : Bool :=
  ptr + oldSize.toNat = block.data + block.used.toNat ∧ block.used + (newSize - oldSize) ≤ block.size

def akArenaRealloc (arena : Arena) (ptr : Option Nat) (oldSize newSize : Size) (grant : Option Nat) :
    Option (Option Nat × Arena) :=
  if newSize = 0 then some (none, arena)
  else
    match ptr with
    | none => akArenaAlloc arena newSize grant
    | some ptr =>
      if newSize ≤ oldSize then some (some ptr, arena)
      else do
        let block ← arena.blocks[arena.currentBlock]?
        if block.extends ptr oldSize newSize then
          let additional := newSize - oldSize
          some (some ptr,
            { arena with
              blocks := arena.blocks.set arena.currentBlock { block with used := block.used + additional }
              totalUsed := arena.totalUsed + additional })
        else akArenaAlloc arena newSize grant

/-- The loop that clears the blocks from `id` on; a chain that does not end
within `fuel` blocks gives `none`, here and below. -/
def clearUsed : Nat → List ArenaBlock → Option Nat → Size → Option (Size × List ArenaBlock)
  | _, blocks, none, reclaimed => some (reclaimed, blocks)
  | 0, _, some _, _ => none
  | fuel + 1, blocks, some id, reclaimed => do
    let block ← blocks[id]?
    clearUsed fuel (blocks.set id { block with used := 0 }) block.next (reclaimed + block.used)

def akArenaReset (arena : Arena) : Option Arena := do
  let (_, blocks) ← clearUsed arena.blocks.length arena.blocks (some arena.firstBlock) 0
  some { arena with blocks, currentBlock := arena.firstBlock, totalUsed := 0 }

def akArenaSnapshot (arena : Arena) : Option Mark := do
  let block ← arena.blocks[arena.currentBlock]?
  some ⟨arena.currentBlock, block.used, block.blockNum⟩

def findBlock (blocks : List ArenaBlock) (block : Nat) : Nat → Option Nat → Option Bool
  | _, none => some false
  | 0, some _ => none
  | fuel + 1, some id => do
    if id = block then some true
    else
      let current ← blocks[id]?
      findBlock blocks block fuel current.next

def akArenaRestore (arena : Arena) (mark : Mark) : Option Arena := do
  let block ← arena.blocks[mark.block]?
  if block.blockNum ≠ mark.blockNum then some arena
  else
    let found ← findBlock arena.blocks mark.block arena.blocks.length (some arena.firstBlock)
    if !found then some arena
    else
      let (reclaimed, blocks) ← clearUsed arena.blocks.length arena.blocks block.next 0
      let block ← blocks[mark.block]?
      let reclaimed := reclaimed + (block.used - mark.offset)
      some { arena with
        blocks := blocks.set mark.block { block with used := mark.offset }
        currentBlock := mark.block
        totalUsed := arena.totalUsed - reclaimed }

def freeBlockChain (blocks : List ArenaBlock) : Nat → Option Nat → Option (List Nat)
  | _, none => some []
  | 0, some _ => none
  | fuel + 1, some id => do
    let block ← blocks[id]?
    let rest ← freeBlockChain blocks fuel block.next
    some (id :: rest)

def akArenaFree (arena : Arena) : Option (List Nat) :=
  freeBlockChain arena.blocks arena.blocks.length (some arena.firstBlock)

inductive Request
  | alloc (size : Size)
  | allocAligned (size align : Size)
  | calloc (nmemb size : Size)
  | realloc (ptr : Option Nat) (oldSize newSize : Size)
  deriving DecidableEq, Repr

def Request.bytes : Request → Size
  | .alloc size => size
  | .allocAligned size _ => size
  | .calloc nmemb size => nmemb * size
  | .realloc _ _ newSize => newSize

def Arena.serve (arena : Arena) (request : Request) (grant : Option Nat) : Option (Option Nat × Arena) :=
  match request with
  | .alloc size => akArenaAlloc arena size grant
  | .allocAligned size align => akArenaAllocAligned arena size align grant
  | .calloc nmemb size => akArenaCalloc arena nmemb size grant
  | .realloc ptr oldSize newSize => akArenaRealloc arena ptr oldSize newSize grant

structure Allocation where
  start : Nat
  size : Size
  block : Nat
  born : Nat
  deriving DecidableEq, Repr

def Allocation.region (a : Allocation) : Region := ⟨a.start, a.size.toNat⟩

def ArenaBlock.region (block : ArenaBlock) : Region := ⟨block.data, block.size.toNat⟩

/-- The live allocations after a request. A reallocation that keeps the pointer
changes the size of its source, one that moves ends its source. -/
def recordResult (live : List Allocation) (request : Request) (result : Option Nat) (block clock : Nat) :
    List Allocation :=
  match result with
  | none => live
  | some start =>
    match request with
    | .realloc (some ptr) _ newSize =>
      if start = ptr then live.map fun a => if a.start = ptr then { a with size := newSize } else a
      else ⟨start, newSize, block, clock⟩ :: live.filter fun a => a.start ≠ ptr
    | _ => ⟨start, request.bytes, block, clock⟩ :: live

/-- An arena in use: its live allocations, the marks taken from it with their
times, and the number of calls so far. -/
structure Session where
  arena : Arena
  live : List Allocation
  marks : List (Mark × Nat)
  clock : Nat
  deriving DecidableEq, Repr

inductive Call
  | request (request : Request) (grant : Option Nat)
  | reset
  | snapshot
  | restore (mark : Mark) (taken : Nat)
  deriving DecidableEq, Repr

/-- Where the allocator may put a block: within the address space and apart
from the blocks it has already given out. -/
def Placed (blocks : List ArenaBlock) (r : Region) : Prop :=
  r.Inside ⟨1, 2 ^ 64 - 1⟩ ∧ ∀ block ∈ blocks, r.Apart block.region

instance (blocks : List ArenaBlock) (r : Region) : Decidable (Placed blocks r) := inferInstanceAs (Decidable (_ ∧ _))

inductive Step : Session → List Call → Session → Prop
  | request (s : Session) (request : Request) (grant : Option Nat) (result : Option Nat) (arena : Arena)
    (hgrant : ∀ data, grant = some data → Placed s.arena.blocks ⟨data, (s.arena.newBlockSize request.bytes).toNat⟩)
    (hserve : s.arena.serve request grant = some (result, arena)) :
    Step s [.request request grant]
      ⟨arena, recordResult s.live request result arena.currentBlock s.clock, s.marks, s.clock + 1⟩
  | reset (s : Session) (arena : Arena) (hreset : akArenaReset s.arena = some arena) :
    Step s [.reset] ⟨arena, [], s.marks, s.clock + 1⟩
  | snapshot (s : Session) (mark : Mark) (hsnapshot : akArenaSnapshot s.arena = some mark) :
    Step s [.snapshot] ⟨s.arena, s.live, (mark, s.clock) :: s.marks, s.clock + 1⟩
  | restore (s : Session) (mark : Mark) (taken : Nat) (arena : Arena) (hmark : (mark, taken) ∈ s.marks)
    (hrestore : akArenaRestore s.arena mark = some arena) :
    Step s [.restore mark taken] ⟨arena, s.live.filter fun a => a.born < taken, s.marks, s.clock + 1⟩

def Fresh (blockSize : Size) (s : Session) : Prop :=
  ∃ granted data, akArenaNew blockSize granted (some data) = some s.arena ∧ s.live = [] ∧ s.marks = [] ∧
    s.clock = 0 ∧ Placed [] ⟨data, blockSize.toNat⟩

end Ak24.ArenaModel
