import Ak24.ArenaLive
import Ak24.Memories

namespace Ak24.ArenaMemory

open ArenaModel ArenaChain ArenaLive Regions Transition Memories Blocks

abbrev Memory := Nat → UInt8

structure Image where
  arena : Arena
  memory : Memory

def Image.akArenaAlloc (image : Image) (size : Size) (grant : Option Nat) : Option (Option Nat × Image) := do
  let (ptr, arena) ← ArenaModel.akArenaAlloc image.arena size grant
  some (ptr, { image with arena })

def Image.akArenaAllocAligned (image : Image) (size align : Size) (grant : Option Nat) :
    Option (Option Nat × Image) := do
  let (ptr, arena) ← ArenaModel.akArenaAllocAligned image.arena size align grant
  some (ptr, { image with arena })

def Image.akArenaCalloc (image : Image) (nmemb size : Size) (grant : Option Nat) : Option (Option Nat × Image) :=
  if nmemb = 0 ∨ size = 0 then some (none, image)
  else
    let totalSize := nmemb * size
    if totalSize / nmemb ≠ size then some (none, image)
    else do
      let (ptr, image) ← image.akArenaAlloc totalSize grant
      match ptr with
      | none => some (none, image)
      | some ptr => some (some ptr, { image with memory := store image.memory ptr (List.replicate totalSize.toNat 0) })

def Image.akArenaRealloc (image : Image) (ptr : Option Nat) (oldSize newSize : Size) (grant : Option Nat) :
    Option (Option Nat × Image) :=
  if newSize = 0 then some (none, image)
  else
    match ptr with
    | none => image.akArenaAlloc newSize grant
    | some ptr =>
      if newSize ≤ oldSize then some (some ptr, image)
      else do
        let block ← image.arena.blocks[image.arena.currentBlock]?
        if block.extends ptr oldSize newSize then
          let additional := newSize - oldSize
          some (some ptr,
            { image with
              arena :=
                { image.arena with
                  blocks := image.arena.blocks.set image.arena.currentBlock
                    { block with used := block.used + additional }
                  totalUsed := image.arena.totalUsed + additional } })
        else do
          let (newPtr, image) ← image.akArenaAlloc newSize grant
          match newPtr with
          | none => some (none, image)
          | some newPtr =>
            some (some newPtr,
              { image with memory := store image.memory newPtr (load image.memory ptr oldSize.toNat) })

def strlen (memory : Memory) (str : Nat) (h : ∃ len, memory (str + len) = 0) : Nat := Nat.find h

def strnlen (memory : Memory) (str : Nat) : Nat → Nat
  | 0 => 0
  | n + 1 => if memory str = 0 then 0 else strnlen memory (str + 1) n + 1

def Image.akArenaStrdup (image : Image) (str : Nat) (h : ∃ len, image.memory (str + len) = 0) (grant : Option Nat) :
    Option (Option Nat × Image) := do
  let len := strlen image.memory str h
  let (copy, image) ← image.akArenaAlloc (BitVec.ofNat 64 (len + 1)) grant
  match copy with
  | none => some (none, image)
  | some copy => some (some copy, { image with memory := store image.memory copy (load image.memory str (len + 1)) })

def Image.akArenaStrndup (image : Image) (str n : Nat) (grant : Option Nat) : Option (Option Nat × Image) := do
  let len := strnlen image.memory str n
  let (copy, image) ← image.akArenaAlloc (BitVec.ofNat 64 (len + 1)) grant
  match copy with
  | none => some (none, image)
  | some copy =>
    let memory := store image.memory copy (load image.memory str len)
    some (some copy, { image with memory := store memory (copy + len) [0] })

def Image.serve (image : Image) (request : Request) (grant : Option Nat) : Option (Option Nat × Image) :=
  match request with
  | .alloc size => image.akArenaAlloc size grant
  | .allocAligned size align => image.akArenaAllocAligned size align grant
  | .calloc nmemb size => image.akArenaCalloc nmemb size grant
  | .realloc ptr oldSize newSize => image.akArenaRealloc ptr oldSize newSize grant

section Strings

variable {memory : Memory} {str n : Nat}

structure Prefix (memory : Memory) (str n len : Nat) : Prop where
  short : len ≤ n
  text : ∀ i < len, memory (str + i) ≠ 0
  stop : len = n ∨ memory (str + len) = 0

theorem strnlen_prefix (memory : Memory) (str n : Nat) : Prefix memory str n (strnlen memory str n) := by
  induction n generalizing str with
  | zero => exact ⟨le_rfl, nofun, .inl rfl⟩
  | succ n ih =>
      rw [strnlen]
      split_ifs with hzero
      · exact ⟨Nat.zero_le _, nofun, .inr hzero⟩
      · obtain ⟨hshort, htext, hstop⟩ := ih (str + 1)
        have hshift : ∀ i, str + (i + 1) = str + 1 + i := by omega
        refine ⟨Nat.succ_le_succ hshort, ?_, ?_⟩
        · intro i hi
          cases i with
          | zero => exact hzero
          | succ i =>
              rw [hshift]
              exact htext i (Nat.lt_of_succ_lt_succ hi)
        · rw [hshift (strnlen memory (str + 1) n)]
          exact hstop.imp (congrArg (· + 1)) id

theorem strlen_reads (h : ∃ len, memory (str + len) = 0) :
    Prefix memory str (strlen memory str h) (strlen memory str h) ∧ memory (str + strlen memory str h) = 0 :=
  ⟨⟨le_rfl, fun _ hi => Nat.find_min h hi, .inl rfl⟩, Nat.find_spec h⟩

end Strings

/-- What the user of an arena sees of it. A string is copied as far as its end or
its limit. -/
inductive Event
  | answered (request : Request) (result : Option Nat)
  | copied (source : Nat) (limit : Option Nat) (text : List UInt8) (result : Option Nat)
  | freed (ptrs : List Nat)
  | wrote (ptr offset : Nat) (bytes : List UInt8)
  | read (ptr offset : Nat) (bytes : List UInt8)
  deriving DecidableEq, Repr

structure Use where
  session : Session
  memory : Memory

def Use.image (u : Use) : Image := ⟨u.session.arena, u.memory⟩

def Use.answer (u : Use) (request : Request) (result : Option Nat) (image : Image) : Use :=
  ⟨⟨image.arena, recordResult u.session.live request result image.arena.currentBlock u.session.clock,
    u.session.marks, u.session.clock + 1⟩, image.memory⟩

def Granted (s : Session) (request : Request) (grant : Option Nat) : Prop :=
  ∀ data, grant = some data → Placed s.arena.blocks ⟨data, (s.arena.newBlockSize request.bytes).toNat⟩

def copyRequest (len : Nat) : Request := .alloc (BitVec.ofNat 64 (len + 1))

/-- A call of the arena, an access of its user within a live allocation, or a
change of memory that is not the arena's. -/
inductive UseStep : Use → List Event → Use → Prop
  | request (u : Use) (request : Request) (grant result : Option Nat) (image : Image)
    (hgrant : Granted u.session request grant) (hproper : Proper u.session (.request request grant))
    (hserve : u.image.serve request grant = some (result, image)) :
    UseStep u [.answered request result] (u.answer request result image)
  | strdup (u : Use) (str : Nat) (h : ∃ len, u.memory (str + len) = 0) (grant result : Option Nat) (image : Image)
    (hgrant : Granted u.session (copyRequest (strlen u.memory str h)) grant)
    (hsmall : strlen u.memory str h + 1 < 2 ^ 62)
    (hserve : u.image.akArenaStrdup str h grant = some (result, image)) :
    UseStep u [.copied str none (load u.memory str (strlen u.memory str h)) result]
      (u.answer (copyRequest (strlen u.memory str h)) result image)
  | strndup (u : Use) (str n : Nat) (grant result : Option Nat) (image : Image)
    (hgrant : Granted u.session (copyRequest (strnlen u.memory str n)) grant)
    (hsmall : strnlen u.memory str n + 1 < 2 ^ 62)
    (hserve : u.image.akArenaStrndup str n grant = some (result, image)) :
    UseStep u [.copied str (some n) (load u.memory str (strnlen u.memory str n)) result]
      (u.answer (copyRequest (strnlen u.memory str n)) result image)
  | call (u : Use) (call : Call) (session : Session) (hcall : ∀ request grant, call ≠ .request request grant)
    (hstep : WholeStep u.session [call] session) :
    UseStep u [.freed ((u.session.live.filter fun a => a ∉ session.live).map Allocation.start)] { u with session }
  | write (u : Use) (a : Allocation) (offset : Nat) (bytes : List UInt8) (ha : a ∈ u.session.live)
    (hroom : offset + bytes.length ≤ a.size.toNat) :
    UseStep u [.wrote a.start offset bytes] { u with memory := store u.memory (a.start + offset) bytes }
  | read (u : Use) (a : Allocation) (offset n : Nat) (ha : a ∈ u.session.live) (hroom : offset + n ≤ a.size.toNat) :
    UseStep u [.read a.start offset (load u.memory (a.start + offset) n)] u
  | elsewhere (u : Use) (memory : Memory)
    (hsame : ∀ block ∈ u.session.arena.blocks, ∀ x ∈ block.region.addresses, memory x = u.memory x) :
    UseStep u [] { u with memory }

/-- The allocations of an ideal allocator, each with its own bytes. -/
abbrev Heap := Nat → Option (List (Option UInt8))

def fresh : Request → Option (List (Option UInt8))
  | .alloc size => some (alloc size.toNat)
  | .allocAligned size _ => some (alloc size.toNat)
  | .calloc nmemb size => some (List.replicate (nmemb.toNat * size.toNat) (some 0))
  | .realloc none _ newSize => some (alloc newSize.toNat)
  | .realloc (some _) _ _ => none

def Reads (h : Heap) (ptr : Nat) (bytes : List UInt8) : Prop :=
  ∀ start cells, h start = some cells → ∀ i j x, cells[i]? = some (some x) → start + i = ptr + j → j < bytes.length →
    bytes[j]? = some x

structure Text (h : Heap) (source : Nat) (limit : Option Nat) (text : List UInt8) : Prop where
  whole : 0 ∉ text
  short : ∀ n, limit = some n → text.length ≤ n
  reads : Reads h source text
  stop : limit = some text.length ∨ Reads h source (text ++ [0])

inductive HeapStep (h : Heap) : List Event → Heap → Prop
  | idle : HeapStep h [] h
  | refused (request : Request) : HeapStep h [.answered request none] h
  | given (request : Request) (ptr : Nat) (cells : List (Option UInt8)) (hcells : fresh request = some cells)
    (hnew : h ptr = none) : HeapStep h [.answered request (some ptr)] (Function.update h ptr (some cells))
  | moved (ptr newPtr : Nat) (oldSize newSize : Size) (cells : List (Option UInt8)) (hlive : h ptr = some cells)
    (hsize : cells.length = oldSize.toNat) (hnew : newPtr = ptr ∨ h newPtr = none) :
    HeapStep h [.answered (.realloc (some ptr) oldSize newSize) (some newPtr)]
      (Function.update (Function.update h ptr none) newPtr (some (realloc cells newSize.toNat)))
  | uncopied (source : Nat) (limit : Option Nat) (text : List UInt8) (htext : Text h source limit text) :
    HeapStep h [.copied source limit text none] h
  | copied (source : Nat) (limit : Option Nat) (text : List UInt8) (ptr : Nat) (htext : Text h source limit text)
    (hnew : h ptr = none) :
    HeapStep h [.copied source limit text (some ptr)] (Function.update h ptr (some ((text ++ [0]).map some)))
  | freed (ptrs : List Nat) (hlive : ∀ ptr ∈ ptrs, h ptr ≠ none) :
    HeapStep h [.freed ptrs] fun ptr => if ptr ∈ ptrs then none else h ptr
  | wrote (ptr offset : Nat) (bytes : List UInt8) (cells cells' : List (Option UInt8)) (hlive : h ptr = some cells)
    (hwrite : write cells offset (bytes.map some) = some cells') :
    HeapStep h [.wrote ptr offset bytes] (Function.update h ptr (some cells'))
  | read (ptr offset : Nat) (bytes : List UInt8) (cells : List (Option UInt8)) (hlive : h ptr = some cells)
    (hroom : offset + bytes.length ≤ cells.length) (hbytes : Reads h (ptr + offset) bytes) :
    HeapStep h [.read ptr offset bytes] h

/-- The memory holds the bytes of every live allocation, and there are no others. -/
structure Contents (live : List Allocation) (memory : Memory) (h : Heap) : Prop where
  held : ∀ a ∈ live, ∃ cells, h a.start = some cells ∧ cells.length = a.size.toNat ∧ Agrees memory a.start cells
  only : ∀ ptr cells, h ptr = some cells → ∃ a ∈ live, a.start = ptr

def Represents (u : Use) (h : Heap) : Prop :=
  (∃ chain, LiveOk u.session chain) ∧ Contents u.session.live u.memory h

section Calls

variable {image image' : Image} {request : Request} {grant result : Option Nat} {size : Size}

theorem akArenaAlloc_image (h : image.akArenaAlloc size grant = some (result, image')) :
    ArenaModel.akArenaAlloc image.arena size grant = some (result, image'.arena) ∧ image'.memory = image.memory := by
  rw [Image.akArenaAlloc] at h
  obtain ⟨⟨ptr, arena⟩, halloc, heq⟩ := Option.bind_eq_some_iff.mp h
  cases heq
  exact ⟨halloc, rfl⟩

inductive Effect (memory : Memory) : Request → Option Nat → Memory → Prop
  | none (request : Request) : Effect memory request none memory
  | fresh (request : Request) (ptr : Nat) (cells : List (Option UInt8)) (memory' : Memory)
    (hcells : fresh request = some cells) (hsize : cells.length = request.bytes.toNat)
    (hagrees : Agrees memory' ptr cells)
    (hframe : ∀ x, x < ptr ∨ ptr + request.bytes.toNat ≤ x → memory' x = memory x) :
    Effect memory request (some ptr) memory'
  | kept (ptr : Nat) (oldSize newSize : Size) :
    Effect memory (.realloc (some ptr) oldSize newSize) (some ptr) memory
  | moved (ptr newPtr : Nat) (oldSize newSize : Size) (hlt : oldSize < newSize) :
    Effect memory (.realloc (some ptr) oldSize newSize) (some newPtr)
      (store memory newPtr (load memory ptr oldSize.toNat))

inductive Copied (memory : Memory) (text : List UInt8) : Option Nat → Memory → Prop
  | none : Copied memory text none memory
  | some (copy : Nat) : Copied memory text (some copy) (store memory copy (text ++ [0]))

theorem Effect.blank {memory : Memory} (request : Request) (result : Option Nat)
    (hcells : ArenaMemory.fresh request = some (alloc request.bytes.toNat)) : Effect memory request result memory := by
  cases result with
  | none => exact .none request
  | some ptr => exact .fresh request ptr _ memory hcells length_alloc Agrees.alloc fun _ _ => rfl

/-- With memory, the calls of the arena do what they do without, and set or copy
the bytes of the result. -/
theorem serve_image (h : image.serve request grant = some (result, image')) :
    image.arena.serve request grant = some (result, image'.arena) ∧
      Effect image.memory request result image'.memory := by
  cases request with
  | alloc size =>
      obtain ⟨halloc, hmemory⟩ := akArenaAlloc_image h
      exact ⟨halloc, hmemory ▸ Effect.blank _ result rfl⟩
  | allocAligned size align =>
      obtain ⟨⟨ptr, arena⟩, halloc, heq⟩ := Option.bind_eq_some_iff.mp h
      cases heq
      exact ⟨halloc, Effect.blank _ result rfl⟩
  | calloc nmemb size =>
      simp only [Image.serve, Image.akArenaCalloc] at h
      simp only [Arena.serve, ArenaModel.akArenaCalloc]
      split_ifs at h ⊢ with hzero hdiv
      · cases h
        exact ⟨rfl, .none _⟩
      · cases h
        exact ⟨rfl, .none _⟩
      · obtain ⟨⟨ptr, next⟩, halloc, heq⟩ := Option.bind_eq_some_iff.mp h
        obtain ⟨harena, hmemory⟩ := akArenaAlloc_image halloc
        have hexact : (nmemb * size).toNat = nmemb.toNat * size.toNat := by
          rw [BitVec.toNat_mul, Nat.mod_eq_of_lt (calloc_exact (not_not.mp hdiv))]
        cases ptr with
        | none =>
            cases heq
            exact ⟨harena, hmemory ▸ .none _⟩
        | some ptr =>
            cases heq
            refine ⟨harena, .fresh _ ptr _ _ rfl ?_ ?_ ?_⟩
            · rw [List.length_replicate]
              exact hexact.symm
            · have hcells : List.replicate (nmemb.toNat * size.toNat) (some 0) =
                  (List.replicate (nmemb * size).toNat (0 : UInt8)).map some := by rw [List.map_replicate, hexact]
              rw [hcells]
              exact Agrees.store_all _ _ _
            · intro x hx
              rw [← hmemory]
              exact store_outside (by rwa [List.length_replicate])
  | realloc ptr oldSize newSize =>
      cases ptr with
      | none =>
          simp only [Image.serve, Image.akArenaRealloc] at h
          simp only [Arena.serve, ArenaModel.akArenaRealloc]
          split_ifs at h ⊢ with hzero
          · cases h
            exact ⟨rfl, .none _⟩
          · obtain ⟨halloc, hmemory⟩ := akArenaAlloc_image h
            exact ⟨halloc, hmemory ▸ Effect.blank _ result rfl⟩
      | some ptr =>
          simp only [Image.serve, Image.akArenaRealloc] at h
          simp only [Arena.serve, ArenaModel.akArenaRealloc]
          split_ifs at h ⊢ with hzero hle
          · cases h
            exact ⟨rfl, .none _⟩
          · cases h
            exact ⟨rfl, .kept ptr oldSize newSize⟩
          · obtain ⟨block, hblock, h⟩ := Option.bind_eq_some_iff.mp h
            simp only [hblock, bind, Option.bind]
            split_ifs at h ⊢ with hextends
            · cases h
              exact ⟨rfl, .kept ptr oldSize newSize⟩
            · obtain ⟨⟨newPtr, next⟩, halloc, heq⟩ := Option.bind_eq_some_iff.mp h
              obtain ⟨harena, hmemory⟩ := akArenaAlloc_image halloc
              cases newPtr with
              | none =>
                  cases heq
                  exact ⟨harena, hmemory ▸ .none _⟩
              | some newPtr =>
                  cases heq
                  refine ⟨harena, ?_⟩
                  rw [hmemory]
                  exact .moved ptr newPtr oldSize newSize (BitVec.not_le.mp hle)

theorem akArenaStrdup_image {str : Nat} {h : ∃ len, image.memory (str + len) = 0}
    (hserve : image.akArenaStrdup str h grant = some (result, image')) :
    image.arena.serve (copyRequest (strlen image.memory str h)) grant = some (result, image'.arena) ∧
      Copied image.memory (load image.memory str (strlen image.memory str h)) result image'.memory := by
  obtain ⟨⟨copy, next⟩, halloc, heq⟩ := Option.bind_eq_some_iff.mp hserve
  obtain ⟨harena, hmemory⟩ := akArenaAlloc_image halloc
  cases copy with
  | none =>
      cases heq
      refine ⟨harena, ?_⟩
      rw [hmemory]
      exact .none
  | some copy =>
      cases heq
      refine ⟨harena, ?_⟩
      rw [hmemory, load_succ, (strlen_reads h).2]
      exact .some copy

theorem akArenaStrndup_image {str n : Nat} (hserve : image.akArenaStrndup str n grant = some (result, image')) :
    image.arena.serve (copyRequest (strnlen image.memory str n)) grant = some (result, image'.arena) ∧
      Copied image.memory (load image.memory str (strnlen image.memory str n)) result image'.memory := by
  obtain ⟨⟨copy, next⟩, halloc, heq⟩ := Option.bind_eq_some_iff.mp hserve
  obtain ⟨harena, hmemory⟩ := akArenaAlloc_image halloc
  cases copy with
  | none =>
      cases heq
      refine ⟨harena, ?_⟩
      rw [hmemory]
      exact .none
  | some copy =>
      cases heq
      refine ⟨harena, ?_⟩
      have hend := @store_append _ next.memory copy (load next.memory str (strnlen image.memory str n)) [0]
      rw [length_load] at hend
      simp only
      rw [hend, hmemory]
      exact .some copy

end Calls

section Simulation

variable {u u' : Use} {h h' : Heap} {live kept : List Allocation} {memory memory' : Memory} {request : Request}
  {result : Option Nat} {image : Image} {chain : List Nat} {a b : Allocation}

theorem Contents.keep (hc : Contents live memory h) (hsub : ∀ a ∈ kept, a ∈ live)
    (hsame : ∀ a ∈ kept, h' a.start = h a.start) (honly : ∀ ptr cells, h' ptr = some cells → ∃ a ∈ kept, a.start = ptr) :
    Contents kept memory h' where
  held := by
    intro a ha
    rw [hsame a ha]
    exact hc.held a (hsub a ha)
  only := honly

theorem Contents.frame (hc : Contents live memory h)
    (hsame : ∀ a ∈ live, ∀ i < a.size.toNat, memory' (a.start + i) = memory (a.start + i)) :
    Contents live memory' h where
  held := by
    intro a ha
    obtain ⟨cells, hcells, hlength, hagrees⟩ := hc.held a ha
    exact ⟨cells, hcells, hlength, hagrees.congr fun i hi => hsame a ha i (hlength ▸ hi)⟩
  only := hc.only

theorem Contents.set (hc : Contents kept memory h) (hapart : ∀ b ∈ kept, b.start ≠ a.start) {cells : List (Option UInt8)}
    (hsize : cells.length = a.size.toNat) (hagrees : Agrees memory a.start cells) :
    Contents (a :: kept) memory (Function.update h a.start (some cells)) where
  held := by
    intro b hb
    rcases List.mem_cons.mp hb with rfl | hb
    · exact ⟨cells, Function.update_self _ _ _, hsize, hagrees⟩
    · rw [Function.update_of_ne (hapart b hb)]
      exact hc.held b hb
  only := by
    intro ptr held hptr
    by_cases heq : ptr = a.start
    · exact ⟨a, List.Mem.head _, heq.symm⟩
    · rw [Function.update_of_ne heq] at hptr
      obtain ⟨b, hb, hstart⟩ := hc.only ptr held hptr
      exact ⟨b, List.mem_cons_of_mem _ hb, hstart⟩

theorem Apart.outside (h : b.region.Apart a.region) {i : Nat} (hi : i < a.size.toNat) :
    a.start + i < b.start ∨ b.start + b.size.toNat ≤ a.start + i := by
  simp only [Region.Apart, Region.stop, Allocation.region] at h
  omega

theorem LiveOk.start_ne {s : Session} (hok : LiveOk s chain) (hlive : s.live = a :: kept) (hb : b ∈ kept) :
    b.start ≠ a.start := by
  have hapart : (a :: kept).Pairwise fun a b => a.region.Apart b.region := hlive ▸ hok.apart
  have hab := (List.pairwise_cons.mp hapart).1 b hb
  obtain ⟨_, hfa⟩ := hok.place a (hlive ▸ List.Mem.head _)
  obtain ⟨_, hfb⟩ := hok.place b (hlive ▸ List.mem_cons_of_mem _ hb)
  have hpa := hfa.pos
  have hpb := hfb.pos
  simp only [Region.Apart, Region.stop, Allocation.region] at hab
  omega

theorem Contents.add {s : Session} (hc : Contents kept memory h) (hok : LiveOk s chain) (hlive : s.live = a :: kept)
    {cells : List (Option UInt8)} (hsize : cells.length = a.size.toNat) (hagrees : Agrees memory' a.start cells)
    (hframe : ∀ x, x < a.start ∨ a.start + a.size.toNat ≤ x → memory' x = memory x) :
    Contents s.live memory' (Function.update h a.start (some cells)) := by
  have hapart : (a :: kept).Pairwise fun a b => a.region.Apart b.region := hlive ▸ hok.apart
  have hnew : Contents kept memory' h := hc.frame fun b hb i hi =>
    hframe _ (Apart.outside ((List.pairwise_cons.mp hapart).1 b hb) hi)
  rw [hlive]
  exact hnew.set (fun b hb => LiveOk.start_ne hok hlive hb) hsize hagrees

theorem Contents.none_of_apart (hc : Contents live memory h) {ptr : Nat} (hapart : ∀ b ∈ live, b.start ≠ ptr) :
    h ptr = none := by
  cases hptr : h ptr with
  | none => rfl
  | some cells =>
      obtain ⟨b, hb, hstart⟩ := hc.only ptr cells hptr
      exact absurd hstart (hapart b hb)

theorem Contents.remove (hc : Contents live memory h) (ptr : Nat) :
    Contents (live.filter fun a => a.start ≠ ptr) memory (Function.update h ptr none) := by
  refine hc.keep (fun a ha => (List.mem_filter.mp ha).1) ?_ ?_
  · intro a ha
    exact Function.update_of_ne (of_decide_eq_true (List.mem_filter.mp ha).2) _ _
  · intro q cells hq
    have hne : q ≠ ptr := by
      rintro rfl
      rw [Function.update_self] at hq
      cases hq
    rw [Function.update_of_ne hne] at hq
    obtain ⟨a, ha, rfl⟩ := hc.only q cells hq
    exact ⟨a, List.mem_filter.mpr ⟨ha, decide_eq_true hne⟩, rfl⟩

theorem Contents.resize (hc : Contents live memory h) (hstart : ∀ a ∈ live, ∀ b ∈ live, a.start = b.start → a = b)
    (ha : a ∈ live) {cells : List (Option UInt8)} (hcells : h a.start = some cells) (newSize : Size) :
    Contents (live.map fun b => if b.start = a.start then { b with size := newSize } else b) memory
      (Function.update (Function.update h a.start none) a.start (some (realloc cells newSize.toNat))) := by
  rw [Function.update_idem]
  constructor
  · intro b' hb'
    obtain ⟨b, hb, rfl⟩ := List.mem_map.mp hb'
    split_ifs with heq
    · obtain rfl := hstart b hb a ha heq
      obtain ⟨old, hold, -, hagrees⟩ := hc.held b hb
      rw [hcells] at hold
      cases hold
      exact ⟨_, Function.update_self _ _ _, length_realloc, hagrees.resized⟩
    · rw [Function.update_of_ne heq]
      exact hc.held b hb
  · intro q held hq
    have hfound : ∃ b ∈ live, b.start = q := by
      by_cases heq : q = a.start
      · exact ⟨a, ha, heq.symm⟩
      · rw [Function.update_of_ne heq] at hq
        exact hc.only q held hq
    obtain ⟨b, hb, rfl⟩ := hfound
    refine ⟨_, List.mem_map_of_mem hb, ?_⟩
    split_ifs <;> rfl

theorem recordResult_fresh {cells : List (Option UInt8)} (hcells : fresh request = some cells) (live : List Allocation)
    (ptr block clock : Nat) :
    recordResult live request (some ptr) block clock = ⟨ptr, request.bytes, block, clock⟩ :: live := by
  cases request with
  | alloc size => rfl
  | allocAligned size align => rfl
  | calloc nmemb size => rfl
  | realloc source oldSize newSize =>
      cases source with
      | none => rfl
      | some source => cases hcells

theorem Represents.resized {ptr : Nat} {oldSize newSize : Size} (hr : Represents u h)
    (hok : LiveOk (u.answer (.realloc (some ptr) oldSize newSize) (some ptr) image).session chain)
    (hsource : ∃ a ∈ u.session.live, a.start = ptr ∧ a.size = oldSize) (hmemory : image.memory = u.memory) :
    ∃ h', HeapStep h [.answered (.realloc (some ptr) oldSize newSize) (some ptr)] h' ∧
      Represents (u.answer (.realloc (some ptr) oldSize newSize) (some ptr) image) h' := by
  obtain ⟨⟨_, hold⟩, hc⟩ := hr
  obtain ⟨a, ha, rfl, hsize⟩ := hsource
  obtain ⟨cells, hcells, hlength, -⟩ := hc.held a ha
  rw [hsize] at hlength
  refine ⟨_, .moved a.start a.start oldSize newSize cells hcells hlength (.inl rfl), ⟨chain, hok⟩, ?_⟩
  have hlive : (u.answer (.realloc (some a.start) oldSize newSize) (some a.start) image).session.live =
      u.session.live.map fun b => if b.start = a.start then { b with size := newSize } else b := if_pos rfl
  rw [hlive]
  show Contents _ image.memory _
  rw [hmemory]
  exact hc.resize (fun _ ha _ hb heq => hold.eq_of_start ha hb heq) ha hcells newSize

theorem Represents.answer (hr : Represents u h) (hok : LiveOk (u.answer request result image).session chain)
    (hsource : ∀ ptr oldSize newSize, request = .realloc (some ptr) oldSize newSize →
      ∃ a ∈ u.session.live, a.start = ptr ∧ a.size = oldSize)
    (heffect : Effect u.memory request result image.memory) :
    ∃ h', HeapStep h [.answered request result] h' ∧ Represents (u.answer request result image) h' := by
  obtain ⟨arena, memory⟩ := image
  simp only at heffect
  cases heffect with
  | none => exact ⟨h, .refused request, ⟨chain, hok⟩, hr.2⟩
  | fresh _ ptr cells _ hcells hsize hagrees hframe =>
      have hlive := recordResult_fresh hcells u.session.live ptr arena.currentBlock u.session.clock
      have hnew : h ptr = none := hr.2.none_of_apart fun b hb => LiveOk.start_ne hok hlive hb
      exact ⟨_, .given request ptr cells hcells hnew, ⟨chain, hok⟩, hr.2.add hok hlive hsize hagrees hframe⟩
  | kept ptr oldSize newSize => exact hr.resized hok (hsource ptr oldSize newSize rfl) rfl
  | moved ptr newPtr oldSize newSize hlt =>
      obtain ⟨a, ha, rfl, hsize⟩ := hsource ptr oldSize newSize rfl
      by_cases hmove : newPtr = a.start
      · subst hmove
        exact hr.resized hok ⟨a, ha, rfl, hsize⟩ store_load
      · obtain ⟨cells, hcells, hlength, hagrees⟩ := hr.2.held a ha
        have hlive : (u.answer (.realloc (some a.start) oldSize newSize) (some newPtr)
            ⟨arena, store u.memory newPtr (load u.memory a.start oldSize.toNat)⟩).session.live =
            ⟨newPtr, newSize, arena.currentBlock, u.session.clock⟩ :: u.session.live.filter fun b => b.start ≠ a.start :=
          if_neg hmove
        have hc := hr.2.remove a.start
        have hnone := hc.none_of_apart fun b hb => LiveOk.start_ne hok hlive hb
        rw [Function.update_of_ne hmove] at hnone
        refine ⟨_, .moved a.start newPtr oldSize newSize cells hcells (hsize ▸ hlength) (.inr hnone), ⟨chain, hok⟩, ?_⟩
        refine hc.add hok hlive length_realloc ?_ ?_
        · rw [← hsize, ← hlength]
          exact hagrees.copied newPtr
        · rw [BitVec.lt_def] at hlt
          intro x hx
          refine store_outside ?_
          rw [length_load]
          simp only at hx
          omega

theorem Represents.copy {source : Nat} {limit : Option Nat} {text : List UInt8} (hr : Represents u h)
    (hok : LiveOk (u.answer (copyRequest text.length) result image).session chain) (hsmall : text.length + 1 < 2 ^ 62)
    (htext : Text h source limit text) (hmemory : Copied u.memory text result image.memory) :
    ∃ h', HeapStep h [.copied source limit text result] h' ∧
      Represents (u.answer (copyRequest text.length) result image) h' := by
  obtain ⟨arena, memory⟩ := image
  simp only at hmemory
  cases hmemory with
  | none => exact ⟨h, .uncopied source limit text htext, ⟨chain, hok⟩, hr.2⟩
  | some ptr =>
      have hlength : (text ++ [0]).length = (BitVec.ofNat 64 (text.length + 1)).toNat := by
        rw [List.length_append, List.length_singleton, BitVec.toNat_ofNat, Nat.mod_eq_of_lt (by omega)]
      have hnew : h ptr = none := hr.2.none_of_apart fun b hb => LiveOk.start_ne hok rfl hb
      refine ⟨_, .copied source limit text ptr htext hnew, ⟨chain, hok⟩, hr.2.add hok rfl ?_ (Agrees.store_all _ _ _) ?_⟩
      · rw [List.length_map, hlength]
        rfl
      · intro x hx
        refine store_outside ?_
        rw [hlength]
        exact hx

theorem Contents.reads (hc : Contents live memory h) (ptr n : Nat) : Reads h ptr (load memory ptr n) := by
  intro start cells hcells i j x hx hplace hj
  obtain ⟨a, ha, rfl⟩ := hc.only start cells hcells
  obtain ⟨_, hheld, -, hagrees⟩ := hc.held a ha
  obtain rfl := Option.some.inj (hcells.symm.trans hheld)
  rw [length_load] at hj
  rw [getElem?_load, if_pos hj, ← hplace, hagrees i x hx]

theorem Contents.text (hc : Contents live memory h) {str n len : Nat} {limit : Option Nat}
    (hbegins : Prefix memory str n len) (hlimit : ∀ m, limit = some m → n ≤ m)
    (hstop : limit = some len ∨ memory (str + len) = 0) : Text h str limit (load memory str len) where
  whole := by
    intro hmem
    obtain ⟨i, hi, heq⟩ := List.mem_map.mp hmem
    exact hbegins.text i (List.mem_range.mp hi) heq
  short := by
    intro m hm
    rw [length_load]
    exact hbegins.short.trans (hlimit m hm)
  reads := hc.reads str len
  stop := by
    rw [length_load]
    refine hstop.imp id fun hzero => ?_
    rw [← hzero, ← load_succ]
    exact hc.reads str (len + 1)

theorem live_of_call {s s' : Session} {call : Call} (hcall : ∀ request grant, call ≠ .request request grant)
    (hstep : Step s [call] s') : ∀ a ∈ s'.live, a ∈ s.live := by
  cases hstep with
  | request request grant => exact absurd rfl (hcall request grant)
  | reset => exact nofun
  | snapshot => exact fun _ ha => ha
  | restore => exact fun _ ha => (List.mem_filter.mp ha).1

theorem Represents.call {session : Session} (hr : Represents u h) (hok : LiveOk session chain)
    (hsub : ∀ a ∈ session.live, a ∈ u.session.live) :
    ∃ h', HeapStep h [.freed ((u.session.live.filter fun a => a ∉ session.live).map Allocation.start)] h' ∧
      Represents { u with session } h' := by
  obtain ⟨⟨_, hold⟩, hc⟩ := hr
  refine ⟨_, .freed _ ?_, ⟨chain, hok⟩, hc.keep hsub ?_ ?_⟩
  · intro ptr hptr
    obtain ⟨a, ha, rfl⟩ := List.mem_map.mp hptr
    obtain ⟨cells, hcells, -⟩ := hc.held a (List.mem_filter.mp ha).1
    rw [hcells]
    exact Option.some_ne_none cells
  · intro a ha
    refine if_neg fun hended => ?_
    obtain ⟨b, hb, hstart⟩ := List.mem_map.mp hended
    obtain ⟨hlive, hgone⟩ := List.mem_filter.mp hb
    obtain rfl := hold.eq_of_start hlive (hsub a ha) hstart
    exact of_decide_eq_true hgone ha
  · intro ptr cells hptr
    split_ifs at hptr with hended
    obtain ⟨a, ha, rfl⟩ := hc.only ptr cells hptr
    refine ⟨a, ?_, rfl⟩
    by_contra hgone
    exact hended (List.mem_map_of_mem (List.mem_filter.mpr ⟨ha, decide_eq_true hgone⟩))

theorem Represents.wrote {offset : Nat} {bytes : List UInt8} (hr : Represents u h) (ha : a ∈ u.session.live)
    (hroom : offset + bytes.length ≤ a.size.toNat) :
    ∃ h', HeapStep h [.wrote a.start offset bytes] h' ∧
      Represents { u with memory := store u.memory (a.start + offset) bytes } h' := by
  obtain ⟨⟨chain, hold⟩, hc⟩ := hr
  obtain ⟨cells, hcells, hlength, hagrees⟩ := hc.held a ha
  have hwrite : write cells offset (bytes.map some) =
      some (cells.take offset ++ bytes.map some ++ cells.drop (offset + (bytes.map some).length)) :=
    if_pos (by rw [List.length_map, hlength]; exact hroom)
  refine ⟨_, .wrote a.start offset bytes cells _ hcells hwrite, ⟨chain, hold⟩, ?_⟩
  constructor
  · intro b hb
    by_cases heq : b.start = a.start
    · obtain rfl := hold.eq_of_start hb ha heq
      exact ⟨_, Function.update_self _ _ _, (length_write hwrite).trans hlength, hagrees.written hwrite⟩
    · obtain ⟨held, hheld, hsize, hagree⟩ := hc.held b hb
      have hsymm : Std.Symm fun a b : Allocation => a.region.Apart b.region := ⟨fun _ _ hap => hap.symm⟩
      have hapart := hold.apart.forall ha hb fun hab => heq (hab ▸ rfl)
      refine ⟨held, by rwa [Function.update_of_ne heq], hsize, hagree.congr fun i hi => store_outside ?_⟩
      have hout := Apart.outside hapart (hsize ▸ hi)
      omega
  · intro ptr held hptr
    by_cases heq : ptr = a.start
    · exact ⟨a, ha, heq.symm⟩
    · rw [Function.update_of_ne heq] at hptr
      exact hc.only ptr held hptr

theorem akArenaCopy_ok {len : Nat} {grant : Option Nat} (hok : LiveOk u.session chain) (hsmall : len + 1 < 2 ^ 62)
    (hgrant : Granted u.session (copyRequest len) grant)
    (hserve : u.session.arena.serve (copyRequest len) grant = some (result, image.arena)) :
    ∃ chain', LiveOk (u.answer (copyRequest len) result image).session chain' := by
  refine hok.request ⟨?_, nofun⟩ hgrant hserve
  show (BitVec.ofNat 64 (len + 1)).toNat < 2 ^ 62
  rw [BitVec.toNat_ofNat, Nat.mod_eq_of_lt (by omega)]
  exact hsmall

theorem Represents.step {events : List Event} (hr : Represents u h) (hs : UseStep u events u') :
    ∃ h', HeapStep h events h' ∧ Represents u' h' := by
  obtain ⟨chain, hold⟩ := hr.1
  cases hs with
  | request request grant result image hgrant hproper hserve =>
      obtain ⟨harena, heffect⟩ := serve_image hserve
      obtain ⟨chain', hok⟩ := hold.request hproper hgrant harena
      exact hr.answer hok hproper.2 heffect
  | strdup str hend grant result image hgrant hsmall hserve =>
      obtain ⟨harena, hcopied⟩ := akArenaStrdup_image hserve
      obtain ⟨chain', hok⟩ := akArenaCopy_ok hold hsmall hgrant harena
      have hlength : (load u.memory str (strlen u.memory str hend)).length = strlen u.memory str hend := length_load
      have htext : Text h str none (load u.memory str (strlen u.memory str hend)) :=
        hr.2.text (strlen_reads hend).1 nofun (.inr (strlen_reads hend).2)
      rw [← hlength] at hok hsmall
      have hcopy := hr.copy hok hsmall htext hcopied
      rwa [hlength] at hcopy
  | strndup str n grant result image hgrant hsmall hserve =>
      obtain ⟨harena, hcopied⟩ := akArenaStrndup_image hserve
      obtain ⟨chain', hok⟩ := akArenaCopy_ok hold hsmall hgrant harena
      have hlength : (load u.memory str (strnlen u.memory str n)).length = strnlen u.memory str n := length_load
      have hbegins := strnlen_prefix u.memory str n
      have htext := hr.2.text hbegins (fun m hm => (Option.some.inj hm).le)
        (hbegins.stop.imp (fun hlen => congrArg some hlen.symm) id)
      rw [← hlength] at hok hsmall
      have hcopy := hr.copy hok hsmall htext hcopied
      rwa [hlength] at hcopy
  | call call session hcall hstep =>
      obtain ⟨chain', hok⟩ := hold.step hstep
      exact hr.call hok (live_of_call hcall hstep.1.1)
  | write a offset bytes ha hroom => exact hr.wrote ha hroom
  | read a offset n ha hroom =>
      obtain ⟨cells, hcells, hlength, -⟩ := hr.2.held a ha
      refine ⟨h, .read a.start offset _ cells hcells ?_ (hr.2.reads _ _), hr⟩
      rw [length_load, hlength]
      exact hroom
  | elsewhere memory hsame =>
      refine ⟨h, .idle, ⟨chain, hold⟩, hr.2.frame fun a ha i hi => ?_⟩
      obtain ⟨block, hfits⟩ := hold.place a ha
      obtain ⟨hlower, hupper⟩ := hold.inside hfits
      simp only [Region.stop, Allocation.region] at hlower hupper
      refine hsame block (List.mem_of_getElem? hfits.found) _ (Finset.mem_Ico.mpr ⟨?_, ?_⟩)
      · omega
      · rw [Region.stop]
        omega

/-- Whatever the calls and the accesses, the user of the arena sees the bytes of
an ideal allocator. -/
theorem heap_refined {s₀ : Session} {blockSize : Size} {trace : List Event} (hfresh : Fresh blockSize s₀)
    (hsize : blockSize.toNat < 2 ^ 62) (hrun : Run UseStep ⟨s₀, memory⟩ trace u) :
    ∃ h, Run HeapStep (fun _ => none) trace h ∧ Contents u.session.live u.memory h := by
  have hinit : Represents ⟨s₀, memory⟩ fun _ => none := by
    refine ⟨⟨[0], LiveOk.start hfresh hsize⟩, ?_, fun _ _ hptr => nomatch hptr⟩
    have hnone : s₀.live = [] := hfresh.choose_spec.choose_spec.2.1
    show ∀ a ∈ s₀.live, _
    rw [hnone]
    exact nofun
  obtain ⟨h, hheap, hr⟩ := hrun.simulate (f := id) hinit fun _ _ h events _ _ hr hs => by
    rw [List.map_id]
    exact hr.step hs
  rw [List.map_id] at hheap
  exact ⟨h, hheap, hr.2⟩

/-- A zeroed allocation is written, copied as a string and moved by growing it. -/
theorem heap_refined_moved : ∃ u h, Run UseStep ⟨roomy, fun _ => 7⟩
    [.answered (.calloc 2 4) (some 4096), .wrote 4096 1 [104, 105], .copied 4097 (some 9) [104, 105] (some 4104),
      .answered (.realloc (some 4096) 8 16) (some 4112), .read 4112 0 [0, 104, 105, 0]] u ∧
    Run HeapStep (fun _ => none) [.answered (.calloc 2 4) (some 4096), .wrote 4096 1 [104, 105],
      .copied 4097 (some 9) [104, 105] (some 4104), .answered (.realloc (some 4096) 8 16) (some 4112),
      .read 4112 0 [0, 104, 105, 0]] h ∧ Contents u.session.live u.memory h := by
  have r₁ : Run UseStep ⟨roomy, fun _ => 7⟩ _ _ := Run.next .start
    (.request _ (.calloc 2 4) none _ _ nofun ⟨by simp [ArenaLive.Small], nofun⟩ rfl)
  have r₂ := r₁.next (.write _ ⟨4096, 8, 0, 0⟩ 1 [104, 105] (List.Mem.head _) (by decide))
  have r₃ := r₂.next (.strndup _ 4097 9 none _ _ nofun (by decide) rfl)
  have r₄ := r₃.next (.request _ (.realloc (some 4096) 8 16) none _ _ nofun ⟨by simp [ArenaLive.Small], by
    rintro _ _ _ ⟨⟩
    exact ⟨⟨4096, 8, 0, 0⟩, List.Mem.tail _ (List.Mem.head _), rfl, rfl⟩⟩ rfl)
  have r₅ := r₄.next (.read _ ⟨4112, 16, 0, 2⟩ 0 4 (List.Mem.head _) (by decide))
  obtain ⟨h, hheap, hc⟩ := heap_refined roomy_fresh (by decide) r₅
  exact ⟨_, h, r₅, hheap, hc⟩

end Simulation

end Ak24.ArenaMemory
