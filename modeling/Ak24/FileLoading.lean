import Ak24.BufferRefinement
import Ak24.Dialogs
import Ak24.Footprints
import Ak24.SourcelocLines

namespace Ak24.FileLoading

open Dialogs Objects Footprints
open BufferModel (Buffer minBufferSize)
open BufferRefinement (BufferOk filled_ok)
open SourcelocModel (SourceFile SourcelocSystem)
open SourcelocLines (newlines lineTable OfContents)

structure Stream where
  content : List UInt8
  position : Nat
  error : Bool
  deriving DecidableEq, Repr

structure BufferStruct where
  data : Option Nat
  capacity : Nat
  count : Nat
  originOffset : Nat
  deriving DecidableEq, Repr

structure FileStruct where
  filename : Option String
  contents : Option Nat
  length : Nat
  lineStarts : Option Nat
  lineCount : Nat
  refCount : Nat
  lock : Bool
  deriving DecidableEq, Repr

def BufferStruct.fresh : BufferStruct := ⟨none, 0, 0, 0⟩

def FileStruct.fresh : FileStruct := ⟨none, none, 0, none, 0, 0, false⟩

inductive Object
  | stream (s : Stream)
  | block (cells : List (Option UInt8))
  | lines (cells : List (Option Nat))
  | buffer (b : BufferStruct)
  | file (f : FileStruct)
  deriving DecidableEq, Repr

/-- The static variables of the kernel: `g_sourceloc_system`, and of
`g_intern_table` the names that it keeps. -/
structure Globals where
  sourceloc : SourcelocSystem
  interned : List String

def Globals.account (g : Globals) (change : SourcelocSystem → SourcelocSystem) : Globals :=
  { g with sourceloc := change g.sourceloc }

def Globals.intern (g : Globals) (name : String) : Globals := { g with interned := g.interned.insert name }

/-- `disk` has the regular files, and `failures` counts the calls that failed. The
memory of the interned names is not among the objects. -/
structure World where
  objects : Heap Object
  disk : String → Option (List UInt8)
  failures : Nat
  g : Globals

/-- A store to a struct changes some of its fields. -/
inductive Call
  | fopen (path : String)
  | seekEnd (file : Nat)
  | seekSet (file : Nat)
  | ftell (file : Nat)
  | fread (block : Option Nat) (n file : Nat)
  | ferror (file : Nat)
  | fclose (file : Nat)
  | alloc (o : Object)
  | free (id : Nat)
  | read (block : Option Nat) (n : Nat)
  | write (block offset : Nat) (bytes : List UInt8)
  | writeLines (lines : Nat) (table : List Nat)
  | loadBuffer (buffer : Nat)
  | storeBuffer (buffer : Nat) (change : BufferStruct → BufferStruct)
  | loadFile (file : Nat)
  | storeFile (file : Nat) (change : FileStruct → FileStruct)
  | mutexInit (file : Nat)
  | mutexDestroy (file : Nat)
  | intern (name : String)
  | account (change : SourcelocSystem → SourcelocSystem)

abbrev Answer : Call → Type
  | .fopen _ | .ftell _ | .alloc _ => Option Nat
  | .seekEnd _ | .seekSet _ | .ferror _ | .fclose _ | .mutexInit _ => Bool
  | .fread .. => Nat
  | .read .. => List UInt8
  | .loadBuffer _ => BufferStruct
  | .loadFile _ => FileStruct
  | .intern _ => Option String
  | .free _ | .write .. | .writeLines .. | .storeBuffer .. | .storeFile .. | .mutexDestroy _ | .account _ => Unit

section Environment

variable (w : World)

def World.IsStream (file : Nat) : Prop := ∃ s, w.objects.cells file = some (.stream s)

def World.IsFile (file : Nat) : Prop := ∃ f, w.objects.cells file = some (.file f)

def Freeable : Object → Prop
  | .stream _ => False
  | .file f => f.lock = false
  | .block _ | .lines _ | .buffer _ => True

/-- Each object is used as what it is, while it is there and inside of its bounds. -/
def legal : Call → Prop
  | .seekEnd file | .seekSet file | .ftell file | .ferror file | .fclose file => w.IsStream file
  | .fread block n file =>
    w.IsStream file ∧ ∃ i cells, block = some i ∧ w.objects.cells i = some (.block cells) ∧ n ≤ cells.length
  | .free id => ∃ o, w.objects.cells id = some o ∧ Freeable o
  | .read block n =>
    ∃ i cells bytes, block = some i ∧ w.objects.cells i = some (.block cells) ∧ Blocks.Holds cells bytes ∧
      bytes.length = n
  | .write block offset bytes =>
    ∃ cells, w.objects.cells block = some (.block cells) ∧ offset + bytes.length ≤ cells.length
  | .writeLines lines table => ∃ cells, w.objects.cells lines = some (.lines cells) ∧ table.length ≤ cells.length
  | .loadBuffer buffer | .storeBuffer buffer _ => ∃ b, w.objects.cells buffer = some (.buffer b)
  | .loadFile file | .storeFile file _ => w.IsFile file
  | .mutexInit file => ∃ f, w.objects.cells file = some (.file f) ∧ f.lock = false
  | .mutexDestroy file => ∃ f, w.objects.cells file = some (.file f) ∧ f.lock = true
  | .fopen _ | .alloc _ | .intern _ | .account _ => True

def World.fail : World := { w with failures := w.failures + 1 }

def World.add (o : Object) : World := { w with objects := w.objects.alloc o }

def World.remove (i : Nat) : World := { w with objects := w.objects.free i }

def World.store (i : Nat) (o : Object) : World := { w with objects := w.objects.store i o }

def World.orFail (w' : World) (ok : Bool) : World := if ok then w' else w'.fail

def Stream.chunk (s : Stream) (k : Nat) : List UInt8 := (s.content.drop s.position).take k

/-- A read stops early at the end of the file, or when it fails. -/
def replies : (call : Call) → Answer call → World → Prop
  | .fopen _, none, w' | .ftell _, none, w' | .alloc _, none, w' | .seekEnd _, false, w' | .seekSet _, false, w'
  | .mutexInit _, false, w' | .intern _, none, w' => w' = w.fail
  | .fopen path, some file, w' =>
    file = w.objects.next ∧ ∃ content, w.disk path = some content ∧ w' = w.add (.stream ⟨content, 0, false⟩)
  | .seekEnd file, true, w' =>
    ∃ s, w.objects.cells file = some (.stream s) ∧ w' = w.store file (.stream { s with position := s.content.length })
  | .seekSet file, true, w' =>
    ∃ s, w.objects.cells file = some (.stream s) ∧ w' = w.store file (.stream { s with position := 0 })
  | .ftell file, some position, w' =>
    w' = w ∧ ∃ s, w.objects.cells file = some (.stream s) ∧ s.position = position ∧ position < 2 ^ 63
  | .fread block n file, k, w' =>
    ∃ s i cells cells' bad, w.objects.cells file = some (.stream s) ∧ block = some i ∧
      w.objects.cells i = some (.block cells) ∧ k ≤ min n (s.content.length - s.position) ∧
      (bad = false → k = min n (s.content.length - s.position)) ∧
      Blocks.write cells 0 ((s.chunk k).map some) = some cells' ∧
      w' = World.orFail ((w.store i (.block cells')).store file
        (.stream { s with position := s.position + k, error := s.error || bad })) (!bad)
  | .ferror file, error, w' => w' = w ∧ ∃ s, w.objects.cells file = some (.stream s) ∧ s.error = error
  | .fclose file, ok, w' => w' = (w.remove file).orFail ok
  | .alloc o, some id, w' => id = w.objects.next ∧ w' = w.add o
  | .free id, _, w' => w' = w.remove id
  | .read block n, bytes, w' =>
    w' = w ∧ ∃ i cells, block = some i ∧ w.objects.cells i = some (.block cells) ∧ Blocks.Holds cells bytes ∧
      bytes.length = n
  | .write block offset bytes, _, w' =>
    ∃ cells cells', w.objects.cells block = some (.block cells) ∧
      Blocks.write cells offset (bytes.map some) = some cells' ∧ w' = w.store block (.block cells')
  | .writeLines lines table, _, w' =>
    ∃ cells cells', w.objects.cells lines = some (.lines cells) ∧
      Blocks.write cells 0 (table.map some) = some cells' ∧ w' = w.store lines (.lines cells')
  | .loadBuffer buffer, b, w' => w' = w ∧ w.objects.cells buffer = some (.buffer b)
  | .storeBuffer buffer change, _, w' =>
    ∃ b, w.objects.cells buffer = some (.buffer b) ∧ w' = w.store buffer (.buffer (change b))
  | .loadFile file, f, w' => w' = w ∧ w.objects.cells file = some (.file f)
  | .storeFile file change, _, w' =>
    ∃ f, w.objects.cells file = some (.file f) ∧ w' = w.store file (.file (change f))
  | .mutexInit file, true, w' =>
    ∃ f, w.objects.cells file = some (.file f) ∧ w' = w.store file (.file { f with lock := true })
  | .mutexDestroy file, _, w' =>
    ∃ f, w.objects.cells file = some (.file f) ∧ w' = w.store file (.file { f with lock := false })
  | .intern name, some interned, w' => interned = name ∧ w' = { w with g := w.g.intern name }
  | .account change, _, w' => w' = { w with g := w.g.account change }

end Environment

def env : Environment Answer World := ⟨legal, replies⟩

abbrev Sys := Prog Answer

def sys (call : Call) : Sys (Answer call) := ask call

def akBufferNew (initialSize : Nat) : Sys (Option Nat) := do
  match ← sys (.alloc (.buffer .fresh)) with
  | none => pure none
  | some buffer =>
    let initialSize := if initialSize < minBufferSize then minBufferSize else initialSize
    let data ← sys (.alloc (.block (Blocks.alloc initialSize)))
    sys (.storeBuffer buffer fun b => { b with data })
    match data with
    | none =>
      sys (.free buffer)
      pure none
    | some _ =>
      sys (.storeBuffer buffer fun b => { b with capacity := initialSize, count := 0, originOffset := 0 })
      pure (some buffer)

def freeData : Option Nat → Sys Unit
  | none => pure ()
  | some data => sys (.free data)

def akBufferFree (buffer : Nat) : Sys Unit := do
  let b ← sys (.loadBuffer buffer)
  freeData b.data
  sys (.free buffer)

def closeFile (file : Nat) : Sys (Option Nat) := do
  let _ ← sys (.fclose file)
  pure none

def discard (buffer file : Nat) : Sys (Option Nat) := do
  akBufferFree buffer
  closeFile file

def finish (buffer file : Nat) : Sys (Option Nat) := do
  if ← sys (.fclose file) then pure (some buffer)
  else
    akBufferFree buffer
    pure none

def fill (buffer file fileSize : Nat) : Sys (Option Nat) := do
  if fileSize > 0 then
    let b ← sys (.loadBuffer buffer)
    let bytesRead ← sys (.fread b.data fileSize file)
    if ← sys (.ferror file) then discard buffer file
    else if bytesRead ≠ fileSize then discard buffer file
    else
      sys (.storeBuffer buffer fun b => { b with count := bytesRead })
      finish buffer file
  else finish buffer file

def akBufferFromFile : Option String → Sys (Option Nat)
  | none => pure none
  | some filepath => do
    match ← sys (.fopen filepath) with
    | none => pure none
    | some file =>
      if !(← sys (.seekEnd file)) then closeFile file
      else
        match ← sys (.ftell file) with
        | none => closeFile file
        | some fileSize =>
          if !(← sys (.seekSet file)) then closeFile file
          else
            match ← akBufferNew fileSize with
            | none => closeFile file
            | some buffer => fill buffer file fileSize

def readSized (fp : Nat) : Option Nat → Sys (Option (Nat × Nat))
  | none => do
    let _ ← sys (.fclose fp)
    pure none
  | some size => do
    match ← sys (.alloc (.block (Blocks.alloc (size + 1)))) with
    | none =>
      let _ ← sys (.fclose fp)
      pure none
    | some buffer =>
      let bytesRead ← sys (.fread (some buffer) size fp)
      let _ ← sys (.fclose fp)
      sys (.write buffer bytesRead [0])
      pure (some (buffer, bytesRead))

def readStream (fp : Nat) : Sys (Option (Nat × Nat)) := do
  let size ← sys (.ftell fp)
  let _ ← sys (.seekSet fp)
  readSized fp size

def readFile (path : String) : Sys (Option (Nat × Nat)) := do
  match ← sys (.fopen path) with
  | none => pure none
  | some fp =>
    let _ ← sys (.seekEnd fp)
    readStream fp

def computeLineStarts (file : Nat) : Sys Bool := do
  let f ← sys (.loadFile file)
  let contents ← sys (.read f.contents f.length)
  let lineCount := (1 + (newlines contents).length) % 2 ^ 32
  let lineStarts ← sys (.alloc (.lines (Blocks.alloc lineCount)))
  sys (.storeFile file fun f => { f with lineStarts })
  match lineStarts with
  | none => pure false
  | some lines =>
    sys (.storeFile file fun f => { f with lineCount })
    sys (.writeLines lines (0 :: (newlines contents).map fun i => (i + 1) % 2 ^ 32))
    pure true

def freeFile (file : Nat) : Sys (Option Nat) := do
  sys (.free file)
  pure none

def destroyLock (file : Nat) : Sys (Option Nat) := do
  sys (.mutexDestroy file)
  freeFile file

def freeContents (block file : Nat) : Sys (Option Nat) := do
  sys (.free block)
  destroyLock file

def fillFile (file block contents len : Nat) : Sys (Option Nat) := do
  let bytes ← sys (.read (some contents) len)
  sys (.write block 0 bytes)
  sys (.write block len [0])
  sys (.storeFile file fun f => { f with length := len })
  if !(← computeLineStarts file) then freeContents block file
  else
    sys (.storeFile file fun f => { f with refCount := 1 })
    sys (.account fun g => g.add len)
    pure (some file)

def akSourceFileNew (filename : String) (contents len : Nat) : Sys (Option Nat) := do
  match ← sys (.alloc (.file .fresh)) with
  | none => pure none
  | some file =>
    if !(← sys (.mutexInit file)) then freeFile file
    else
      let filename ← sys (.intern filename)
      sys (.storeFile file fun f => { f with filename })
      match filename with
      | none => destroyLock file
      | some _ =>
        let block ← sys (.alloc (.block (Blocks.alloc (len + 1))))
        sys (.storeFile file fun f => { f with contents := block })
        match block with
        | none => destroyLock file
        | some block => fillFile file block contents len

def akSourceFileFromPath : Option String → Sys (Option Nat)
  | none => pure none
  | some path => do
    match ← readFile path with
    | none => pure none
    | some (contents, len) =>
      let file ← akSourceFileNew path contents len
      sys (.free contents)
      pure file

/-- `ak_source_file_release` of the only thread that knows the file. -/
def akSourceFileRelease (file : Nat) : Sys Unit := do
  sys (.storeFile file fun f => { f with refCount := (f.refCount + (2 ^ 32 - 1)) % 2 ^ 32 })
  let f ← sys (.loadFile file)
  if f.refCount = 0 then
    sys (.account fun g => g.remove f.length)
    freeData f.lineStarts
    freeData f.contents
    sys (.mutexDestroy file)
    sys (.free file)
  else pure ()

structure After (w₀ : World) (own : List (Nat × Object)) (n : Nat) (g : Globals) (w : World) : Prop where
  beside : Beside w₀.objects.cells own w.objects
  disk : w.disk = w₀.disk
  failures : w.failures = w₀.failures + n
  g : w.g = g

section Calls

variable {w₀ w : World} {own l r : List (Nat × Object)} {n i file : Nat} {g : Globals} {o o' : Object} {s : Stream}

theorem After.start (w : World) : After w [] 0 w.g w := ⟨Beside.start w.objects, rfl, rfl, rfl⟩

theorem After.fail (h : After w₀ own n g w) : After w₀ own (n + 1) g w.fail :=
  ⟨h.beside, h.disk, congrArg (· + 1) h.failures, h.g⟩

theorem After.add (h : After w₀ own n g w) (o : Object) : After w₀ ((w.objects.next, o) :: own) n g (w.add o) :=
  ⟨h.beside.alloc o, h.disk, h.failures, h.g⟩

theorem After.remove (h : After w₀ (l ++ (i, o) :: r) n g w) : After w₀ (l ++ r) n g (w.remove i) :=
  ⟨h.beside.free, h.disk, h.failures, h.g⟩

theorem After.store (h : After w₀ (l ++ (i, o) :: r) n g w) (o' : Object) :
    After w₀ (l ++ (i, o') :: r) n g (w.store i o') :=
  ⟨h.beside.store o', h.disk, h.failures, h.g⟩

theorem After.get (h : After w₀ own n g w) (hmem : (i, o) ∈ own) : w.objects.cells i = some o := h.beside.get hmem

theorem After.middle (h : After w₀ (l ++ (i, o) :: r) n g w) : w.objects.cells i = some o := h.get (by simp)

theorem wp_fopen {path : String} {Q : Option Nat → World → Prop} (h : After w₀ own n g w)
    (hnone : ∀ w', After w₀ own (n + 1) g w' → Q none w')
    (hsome : ∀ file content w', w₀.disk path = some content →
      After w₀ ((file, .stream ⟨content, 0, false⟩) :: own) n g w' → Q (some file) w') :
    wp env (sys (.fopen path)) Q w := by
  refine wp_ask trivial fun answer w' hreply => ?_
  cases answer with
  | none =>
      cases hreply
      exact hnone _ h.fail
  | some file =>
      obtain ⟨rfl, content, hdisk, rfl⟩ := hreply
      exact hsome _ content _ (h.disk ▸ hdisk) (h.add _)

theorem wp_seekEnd {Q : Bool → World → Prop} (h : After w₀ (l ++ (file, .stream s) :: r) n g w)
    (hfalse : ∀ w', After w₀ (l ++ (file, .stream s) :: r) (n + 1) g w' → Q false w')
    (htrue : ∀ w', After w₀ (l ++ (file, .stream { s with position := s.content.length }) :: r) n g w' → Q true w') :
    wp env (sys (.seekEnd file)) Q w := by
  refine wp_ask ⟨s, h.middle⟩ fun answer w' hreply => ?_
  cases answer with
  | false =>
      cases hreply
      exact hfalse _ h.fail
  | true =>
      obtain ⟨s', hs, rfl⟩ := hreply
      cases h.middle.symm.trans hs
      exact htrue _ (h.store _)

theorem wp_seekSet {Q : Bool → World → Prop} (h : After w₀ (l ++ (file, .stream s) :: r) n g w)
    (hfalse : ∀ w', After w₀ (l ++ (file, .stream s) :: r) (n + 1) g w' → Q false w')
    (htrue : ∀ w', After w₀ (l ++ (file, .stream { s with position := 0 }) :: r) n g w' → Q true w') :
    wp env (sys (.seekSet file)) Q w := by
  refine wp_ask ⟨s, h.middle⟩ fun answer w' hreply => ?_
  cases answer with
  | false =>
      cases hreply
      exact hfalse _ h.fail
  | true =>
      obtain ⟨s', hs, rfl⟩ := hreply
      cases h.middle.symm.trans hs
      exact htrue _ (h.store _)

theorem wp_ftell {Q : Option Nat → World → Prop} (h : After w₀ own n g w) (hmem : (file, .stream s) ∈ own)
    (hnone : ∀ w', After w₀ own (n + 1) g w' → Q none w')
    (hsome : s.position < 2 ^ 63 → Q (some s.position) w) : wp env (sys (.ftell file)) Q w := by
  refine wp_ask ⟨s, h.get hmem⟩ fun answer w' hreply => ?_
  cases answer with
  | none =>
      cases hreply
      exact hnone _ h.fail
  | some position =>
      obtain ⟨rfl, s', hs, rfl, hsmall⟩ := hreply
      cases (h.get hmem).symm.trans hs
      exact hsome hsmall

theorem wp_fread {size : Nat} {cells : List (Option UInt8)} {Q : Nat → World → Prop}
    (h : After w₀ ((i, .block cells) :: (l ++ (file, .stream s) :: r)) n g w) (hroom : size ≤ cells.length)
    (hread : ∀ k cells' n' error w', k ≤ min size (s.content.length - s.position) →
      (n' = n → error = s.error ∧ k = min size (s.content.length - s.position)) → n ≤ n' →
      (error = false → n' = n) → Blocks.write cells 0 ((s.chunk k).map some) = some cells' →
      After w₀ ((i, .block cells') :: (l ++ (file, .stream ⟨s.content, s.position + k, error⟩) :: r)) n' g w' →
      Q k w') :
    wp env (sys (.fread (some i) size file)) Q w := by
  have hblock : w.objects.cells i = some (.block cells) := h.get (by simp)
  have hstream : w.objects.cells file = some (.stream s) := h.get (by simp)
  refine wp_ask ⟨⟨s, hstream⟩, i, cells, rfl, hblock, hroom⟩ fun k w' hreply => ?_
  obtain ⟨s', i', cells₁, cells', bad, hs, hi, hcells, hk, hall, hwrite, rfl⟩ := hreply
  cases hi
  cases hstream.symm.trans hs
  cases hblock.symm.trans hcells
  have hblock' := After.store (l := []) h (.block cells')
  have hstream' := After.store (l := (i, .block cells') :: l) hblock'
    (.stream { s with position := s.position + k, error := s.error || bad })
  cases bad with
  | false =>
      rw [Bool.or_false] at hstream'
      refine hread k cells' n s.error _ hk (fun _ => ⟨rfl, hall rfl⟩) le_rfl (fun _ => rfl) hwrite ?_
      rw [Bool.or_false]
      exact hstream'
  | true =>
      rw [Bool.or_true] at hstream'
      refine hread k cells' (n + 1) true _ hk (by omega) (by omega) nofun hwrite ?_
      rw [Bool.or_true]
      exact hstream'.fail

theorem wp_ferror {Q : Bool → World → Prop} (h : After w₀ own n g w) (hmem : (file, .stream s) ∈ own)
    (hQ : Q s.error w) : wp env (sys (.ferror file)) Q w := by
  refine wp_ask ⟨s, h.get hmem⟩ fun answer w' hreply => ?_
  obtain ⟨rfl, s', hs, rfl⟩ := hreply
  cases (h.get hmem).symm.trans hs
  exact hQ

theorem wp_fclose {Q : Bool → World → Prop} (h : After w₀ (l ++ (file, .stream s) :: r) n g w)
    (hQ : ∀ ok n' w', n ≤ n' → (ok = true ↔ n' = n) → After w₀ (l ++ r) n' g w' → Q ok w') :
    wp env (sys (.fclose file)) Q w := by
  refine wp_ask ⟨s, h.middle⟩ fun ok w' hreply => ?_
  cases hreply
  cases ok with
  | false => exact hQ false (n + 1) _ (by omega) (by simp) h.remove.fail
  | true => exact hQ true n _ le_rfl (by simp) h.remove

theorem wp_alloc {Q : Option Nat → World → Prop} (h : After w₀ own n g w)
    (hnone : ∀ w', After w₀ own (n + 1) g w' → Q none w')
    (hsome : ∀ id w', After w₀ ((id, o) :: own) n g w' → Q (some id) w') : wp env (sys (.alloc o)) Q w := by
  refine wp_ask trivial fun answer w' hreply => ?_
  cases answer with
  | none =>
      cases hreply
      exact hnone _ h.fail
  | some id =>
      obtain ⟨rfl, rfl⟩ := hreply
      exact hsome _ _ (h.add o)

theorem wp_free {Q : Unit → World → Prop} (h : After w₀ (l ++ (i, o) :: r) n g w) (ho : Freeable o)
    (hQ : ∀ w', After w₀ (l ++ r) n g w' → Q () w') : wp env (sys (.free i)) Q w := by
  refine wp_ask ⟨o, h.middle, ho⟩ fun _ w' hreply => ?_
  cases hreply
  exact hQ _ h.remove

theorem wp_read {cells : List (Option UInt8)} {bytes : List UInt8} {size : Nat} {Q : List UInt8 → World → Prop}
    (h : After w₀ own n g w) (hmem : (i, .block cells) ∈ own) (hbytes : Blocks.Holds cells bytes)
    (hsize : bytes.length = size) (hQ : Q bytes w) : wp env (sys (.read (some i) size)) Q w := by
  refine wp_ask ⟨i, cells, bytes, rfl, h.get hmem, hbytes, hsize⟩ fun answer w' hreply => ?_
  obtain ⟨rfl, i', cells', hi, hcells, hanswer, hlength⟩ := hreply
  cases hi
  cases (h.get hmem).symm.trans hcells
  rw [hanswer.unique hbytes (hlength.trans hsize.symm)]
  exact hQ

theorem wp_write {cells cells' : List (Option UInt8)} {offset : Nat} {bytes : List UInt8} {Q : Unit → World → Prop}
    (h : After w₀ (l ++ (i, .block cells) :: r) n g w)
    (hwrite : Blocks.write cells offset (bytes.map some) = some cells')
    (hQ : ∀ w', After w₀ (l ++ (i, .block cells') :: r) n g w' → Q () w') : wp env (sys (.write i offset bytes)) Q w := by
  have hroom : offset + bytes.length ≤ cells.length := by
    unfold Blocks.write at hwrite
    split_ifs at hwrite with hroom
    simpa using hroom
  refine wp_ask ⟨cells, h.middle, hroom⟩ fun _ w' hreply => ?_
  obtain ⟨cells₁, cells₂, hcells, hwrite', rfl⟩ := hreply
  cases h.middle.symm.trans hcells
  cases hwrite.symm.trans hwrite'
  exact hQ _ (h.store _)

theorem wp_writeLines {cells cells' : List (Option Nat)} {table : List Nat} {Q : Unit → World → Prop}
    (h : After w₀ (l ++ (i, .lines cells) :: r) n g w) (hwrite : Blocks.write cells 0 (table.map some) = some cells')
    (hQ : ∀ w', After w₀ (l ++ (i, .lines cells') :: r) n g w' → Q () w') : wp env (sys (.writeLines i table)) Q w := by
  have hroom : table.length ≤ cells.length := by
    unfold Blocks.write at hwrite
    split_ifs at hwrite with hroom
    simpa using hroom
  refine wp_ask ⟨cells, h.middle, hroom⟩ fun _ w' hreply => ?_
  obtain ⟨cells₁, cells₂, hcells, hwrite', rfl⟩ := hreply
  cases h.middle.symm.trans hcells
  cases hwrite.symm.trans hwrite'
  exact hQ _ (h.store _)

theorem wp_loadBuffer {b : BufferStruct} {Q : BufferStruct → World → Prop} (h : After w₀ own n g w)
    (hmem : (i, .buffer b) ∈ own) (hQ : Q b w) : wp env (sys (.loadBuffer i)) Q w := by
  refine wp_ask ⟨b, h.get hmem⟩ fun answer w' hreply => ?_
  obtain ⟨rfl, hb⟩ := hreply
  cases (h.get hmem).symm.trans hb
  exact hQ

theorem wp_storeBuffer {b : BufferStruct} {change : BufferStruct → BufferStruct} {Q : Unit → World → Prop}
    (h : After w₀ (l ++ (i, .buffer b) :: r) n g w)
    (hQ : ∀ w', After w₀ (l ++ (i, .buffer (change b)) :: r) n g w' → Q () w') :
    wp env (sys (.storeBuffer i change)) Q w := by
  refine wp_ask ⟨b, h.middle⟩ fun _ w' hreply => ?_
  obtain ⟨b', hb, rfl⟩ := hreply
  cases h.middle.symm.trans hb
  exact hQ _ (h.store _)

theorem wp_loadFile {f : FileStruct} {Q : FileStruct → World → Prop} (h : After w₀ own n g w)
    (hmem : (i, .file f) ∈ own) (hQ : Q f w) : wp env (sys (.loadFile i)) Q w := by
  refine wp_ask ⟨f, h.get hmem⟩ fun answer w' hreply => ?_
  obtain ⟨rfl, hf⟩ := hreply
  cases (h.get hmem).symm.trans hf
  exact hQ

theorem wp_storeFile {f : FileStruct} {change : FileStruct → FileStruct} {Q : Unit → World → Prop}
    (h : After w₀ (l ++ (i, .file f) :: r) n g w)
    (hQ : ∀ w', After w₀ (l ++ (i, .file (change f)) :: r) n g w' → Q () w') :
    wp env (sys (.storeFile i change)) Q w := by
  refine wp_ask ⟨f, h.middle⟩ fun _ w' hreply => ?_
  obtain ⟨f', hf, rfl⟩ := hreply
  cases h.middle.symm.trans hf
  exact hQ _ (h.store _)

theorem wp_mutexInit {f : FileStruct} {Q : Bool → World → Prop} (h : After w₀ (l ++ (i, .file f) :: r) n g w)
    (hlock : f.lock = false) (hfalse : ∀ w', After w₀ (l ++ (i, .file f) :: r) (n + 1) g w' → Q false w')
    (htrue : ∀ w', After w₀ (l ++ (i, .file { f with lock := true }) :: r) n g w' → Q true w') :
    wp env (sys (.mutexInit i)) Q w := by
  refine wp_ask ⟨f, h.middle, hlock⟩ fun answer w' hreply => ?_
  cases answer with
  | false =>
      cases hreply
      exact hfalse _ h.fail
  | true =>
      obtain ⟨f', hf, rfl⟩ := hreply
      cases h.middle.symm.trans hf
      exact htrue _ (h.store _)

theorem wp_mutexDestroy {f : FileStruct} {Q : Unit → World → Prop} (h : After w₀ (l ++ (i, .file f) :: r) n g w)
    (hlock : f.lock = true) (hQ : ∀ w', After w₀ (l ++ (i, .file { f with lock := false }) :: r) n g w' → Q () w') :
    wp env (sys (.mutexDestroy i)) Q w := by
  refine wp_ask ⟨f, h.middle, hlock⟩ fun _ w' hreply => ?_
  obtain ⟨f', hf, rfl⟩ := hreply
  cases h.middle.symm.trans hf
  exact hQ _ (h.store _)

theorem wp_intern {name : String} {Q : Option String → World → Prop} (h : After w₀ own n g w)
    (hnone : ∀ w', After w₀ own (n + 1) g w' → Q none w')
    (hsome : ∀ w', After w₀ own n (g.intern name) w' → Q (some name) w') : wp env (sys (.intern name)) Q w := by
  refine wp_ask trivial fun answer w' hreply => ?_
  cases answer with
  | none =>
      cases hreply
      exact hnone _ h.fail
  | some interned =>
      obtain ⟨rfl, rfl⟩ := hreply
      exact hsome _ ⟨h.beside, h.disk, h.failures, congrArg (Globals.intern · interned) h.g⟩

theorem wp_account {change : SourcelocSystem → SourcelocSystem} {Q : Unit → World → Prop} (h : After w₀ own n g w)
    (hQ : ∀ w', After w₀ own n (g.account change) w' → Q () w') : wp env (sys (.account change)) Q w := by
  refine wp_ask trivial fun _ w' hreply => ?_
  cases hreply
  exact hQ _ ⟨h.beside, h.disk, h.failures, congrArg (Globals.account · change) h.g⟩

end Calls

def bufferParts (buffer data : Nat) (b : Buffer) : List (Nat × Object) :=
  [(data, .block b.data), (buffer, .buffer ⟨some data, b.capacity, b.count, b.originOffset⟩)]

structure Refused (w : World) (path : Option String) (w' : World) : Prop where
  cells : w'.objects.cells = w.objects.cells
  g : w'.g = w.g
  reason : path = none ∨ w.failures < w'.failures

/-- `ak_buffer_from_file` gives a buffer with all of the file, or changes nothing. -/
def Buffered (w : World) (path : Option String) : Option Nat → World → Prop
  | none, w' => Refused w path w'
  | some buffer, w' => ∃ content data b, path.bind w.disk = some content ∧ BufferOk b content ∧
    After w (bufferParts buffer data b) 0 w.g w'

section Buffers

variable {w₀ w : World} {own : List (Nat × Object)} {n size file buffer data : Nat} {g : Globals} {b : Buffer}
  {content : List UInt8} {path : String}

theorem wp_bufferNew {Q : Option Nat → World → Prop} (h : After w₀ own n g w)
    (hnone : ∀ w', After w₀ own (n + 1) g w' → Q none w')
    (hsome : ∀ buffer data b w', BufferModel.akBufferNew size ⟨true, true⟩ = some b →
      After w₀ (bufferParts buffer data b ++ own) n g w' → Q (some buffer) w') :
    wp env (akBufferNew size) Q w := by
  refine wp_bind (wp_alloc h (fun w' h => hnone w' h) fun buffer w' h => wp_bind (wp_alloc h ?_ ?_))
  · intro w' h
    refine wp_bind (wp_storeBuffer (l := []) h fun w' h => ?_)
    exact wp_bind (wp_free (l := []) h trivial fun w' h => hnone w' h)
  · intro data w' h
    refine wp_bind (wp_storeBuffer (l := [_]) h fun w' h => ?_)
    refine wp_bind (wp_storeBuffer (l := [_]) h fun w' h => ?_)
    exact hsome buffer data _ w' rfl h

theorem wp_bufferFree {Q : Unit → World → Prop} (h : After w₀ (bufferParts buffer data b ++ own) n g w)
    (hQ : ∀ w', After w₀ own n g w' → Q () w') : wp env (akBufferFree buffer) Q w := by
  refine wp_bind (wp_loadBuffer h (.tail _ (.head _)) (wp_bind ?_))
  refine wp_free (l := []) h trivial fun w' h => ?_
  exact wp_free (l := []) h trivial hQ

theorem wp_closeFile {Q : Option Nat → World → Prop} {s : Stream} (h : After w₀ [(file, .stream s)] n g w)
    (hQ : ∀ n' w', n ≤ n' → After w₀ [] n' g w' → Q none w') : wp env (closeFile file) Q w :=
  wp_bind (wp_fclose (l := []) h fun _ n' w' hle _ h => hQ n' w' hle h)

theorem refused (h : After w [] n w.g w₀) (hn : 0 < n) : Refused w (some path) w₀ :=
  ⟨h.beside.cells_eq, h.g, .inr (by have := h.failures; omega)⟩

theorem wp_discard {s : Stream} {w' : World}
    (h : After w (bufferParts buffer data b ++ [(file, .stream s)]) n w.g w') (hn : 0 < n) :
    wp env (discard buffer file) (Buffered w (some path)) w' := by
  refine wp_bind (wp_bufferFree h fun w' h => ?_)
  exact wp_closeFile h fun n' w' hle h => refused h (by omega)

theorem wp_finish {s : Stream} {w' : World} (h : After w (bufferParts buffer data b ++ [(file, .stream s)]) 0 w.g w')
    (hdisk : w.disk path = some content) (hb : BufferOk b content) :
    wp env (finish buffer file) (Buffered w (some path)) w' := by
  refine wp_bind (wp_fclose h fun ok n' w' _ hok h => ?_)
  cases ok with
  | false =>
      have hn' : n' ≠ 0 := fun hn' => Bool.false_ne_true (hok.mpr hn')
      rw [List.append_nil, ← List.append_nil (bufferParts buffer data b)] at h
      exact wp_bind (wp_bufferFree h fun w' h => refused h (by omega))
  | true =>
      obtain rfl := hok.mp rfl
      exact ⟨content, data, b, hdisk, hb, h⟩

theorem wp_fill {w' : World} (hdisk : w.disk path = some content)
    (hb : BufferModel.akBufferNew content.length ⟨true, true⟩ = some b)
    (h : After w (bufferParts buffer data b ++ [(file, .stream ⟨content, 0, false⟩)]) 0 w.g w') :
    wp env (fill buffer file content.length) (Buffered w (some path)) w' := by
  obtain ⟨cells, hcells, hfilled⟩ := filled_ok hb le_rfl b.originOffset
  have hnew := BufferRefinement.akBufferNew_ok hb
  unfold fill
  split_ifs with hpos
  · refine wp_bind (wp_loadBuffer h (.tail _ (.head _)) (wp_bind ?_))
    have hroom : content.length ≤ b.data.length := hnew.2.trans hnew.1.capacity.ge
    refine wp_fread (l := [_]) h hroom fun k cells' n' error w' hk hclean _ hquiet hwrite h => wp_bind ?_
    refine wp_ferror h (.tail _ (.tail _ (.head _))) ?_
    cases error with
    | true =>
        refine wp_discard (b := ⟨cells', b.capacity, b.count, b.originOffset⟩) h ?_
        have hn' : n' ≠ 0 := fun hn' => Bool.false_ne_true (hclean hn').1.symm
        omega
    | false =>
        obtain rfl := hquiet rfl
        obtain ⟨-, hk⟩ := hclean rfl
        have hall : k = content.length := by simpa using hk
        subst hall
        have hchunk : Stream.chunk ⟨content, 0, false⟩ content.length = content := by
          simp [Stream.chunk]
        rw [hchunk, hcells] at hwrite
        cases hwrite
        rw [if_neg Bool.false_ne_true, if_neg (not_not.mpr rfl)]
        refine wp_bind (wp_storeBuffer (l := [_]) h fun w' h => ?_)
        exact wp_finish (b := { b with data := cells, count := content.length }) h hdisk hfilled
  · obtain rfl : content = [] := List.length_eq_zero_iff.mp (by omega)
    exact wp_finish h hdisk hnew.1

theorem wp_bufferFromFile (path : Option String) (w : World) :
    wp env (akBufferFromFile path) (Buffered w path) w := by
  cases path with
  | none => exact ⟨rfl, rfl, .inl rfl⟩
  | some path =>
      refine wp_bind (wp_fopen (After.start w) (fun w' h => refused h (by omega)) ?_)
      intro file content w' hdisk h
      refine wp_bind (wp_seekEnd (l := []) h (fun w' h => ?_) fun w' h => ?_)
      · exact wp_closeFile h fun n' w' hle h => refused h (by omega)
      refine wp_bind (wp_ftell h (.head _) (fun w' h => ?_) fun hsmall => ?_)
      · exact wp_closeFile h fun n' w' hle h => refused h (by omega)
      refine wp_bind (wp_seekSet (l := []) h (fun w' h => ?_) fun w' h => ?_)
      · exact wp_closeFile h fun n' w' hle h => refused h (by omega)
      refine wp_bind (wp_bufferNew h (fun w' h => ?_) fun buffer data b w' hb h => ?_)
      · exact wp_closeFile h fun n' w' hle h => refused h (by omega)
      exact wp_fill hdisk hb h

/-- Whatever the C library and the allocator answer, `ak_buffer_from_file` uses
only what it has and gives a buffer with all of the file, or nothing after a call
that failed; a free of the buffer leaves the objects of before. -/
theorem buffer_from_file_whole (path : Option String) (w : World) :
    (∀ call next w', Steps env (akBufferFromFile path) w (.ask call next) w' → legal w' call) ∧
    (∀ r w', Steps env (akBufferFromFile path) w (.done r) w' → Buffered w path r w') ∧
    ∀ buffer w', Steps env (akBufferFromFile path) w (.done (some buffer)) w' →
      (∀ call next w'', Steps env (akBufferFree buffer) w' (.ask call next) w'' → legal w'' call) ∧
      ∀ w'', Steps env (akBufferFree buffer) w' (.done ()) w'' → w''.objects.cells = w.objects.cells := by
  have hload := wp_bufferFromFile path w
  refine ⟨fun call next w' => legal_of_wp hload, fun r w' => post_of_wp hload, fun buffer w' hsteps => ?_⟩
  obtain ⟨content, data, b, -, -, h⟩ := post_of_wp hload hsteps
  have hfree : wp env (akBufferFree buffer) (fun _ w'' => w''.objects.cells = w.objects.cells) w' := by
    rw [← List.append_nil (bufferParts buffer data b)] at h
    exact wp_bufferFree h fun w'' h => h.beside.cells_eq
  exact ⟨fun call next w'' => legal_of_wp hfree, fun w'' => post_of_wp hfree⟩

end Buffers

def fileParts (file block lines : Nat) (f : SourceFile) : List (Nat × Object) :=
  [(lines, .lines ((f.lineStarts.getD []).map some)), (block, .block ((f.contents.getD []).map some)),
    (file, .file ⟨f.filename, some block, f.length, some lines, f.lineCount, f.refCount, f.lock⟩)]

/-- A load that gives no file leaves nothing but the name of the file, where it
came to intern it, and some call has failed. -/
structure Declined (w : World) (path : Option String) (w' : World) : Prop where
  cells : w'.objects.cells = w.objects.cells
  g : w'.g = w.g ∨ ∃ name, path = some name ∧ w'.g = w.g.intern name
  reason : path = none ∨ w.failures < w'.failures

/-- `ak_source_file_from_path` gives a file with one reference, whose text is a
beginning of what is on the disk, and all of it unless a call fails. It interns
the name of the file. -/
def Sourced (w : World) (path : Option String) : Option Nat → World → Prop
  | none, w' => Declined w path w'
  | some file, w' => ∃ name content text block lines f n, path = some name ∧ w.disk name = some content ∧
    text <+: content ∧ (n = 0 → text = content) ∧ f.filename = path ∧ f.refCount = 1 ∧ f.lock = true ∧
    OfContents f text ∧ After w (fileParts file block lines f) n ((w.g.intern name).account (·.add text.length)) w'

section Files

variable {w₀ w : World} {own : List (Nat × Object)} {n file block : Nat} {g : Globals} {f : FileStruct}
  {content text : List UInt8} {cells : List (Option UInt8)} {path : String}

theorem lineTable_wrapped (hsmall : text.length < 2 ^ 32 - 1) :
    (1 + (newlines text).length) % 2 ^ 32 = (lineTable text).length ∧
      0 :: (newlines text).map (fun i => (i + 1) % 2 ^ 32) = lineTable text := by
  have hle := SourcelocLines.length_lineTable_le text
  rw [lineTable, List.length_cons, List.length_map] at hle ⊢
  refine ⟨?_, ?_⟩
  · rw [Nat.mod_eq_of_lt (by omega), Nat.add_comm]
  · refine congrArg (0 :: ·) (List.map_congr_left fun i hi => ?_)
    have := (SourcelocLines.mem_newlines.mp hi).2
    exact Nat.mod_eq_of_lt (by omega)

theorem write_all {β : Type} (l : List β) :
    Blocks.write (Blocks.alloc l.length) 0 (l.map some) = some (l.map some) := by
  rw [Blocks.write, if_pos (by simp)]
  simp [Blocks.alloc]

theorem wp_computeLineStarts {Q : Bool → World → Prop}
    (h : After w₀ ((block, .block cells) :: (file, .file f) :: own) n g w) (hcontents : f.contents = some block)
    (hlength : f.length = text.length) (hcells : Blocks.Holds cells text) (hsmall : text.length < 2 ^ 32 - 1)
    (hfalse : ∀ w', After w₀ ((block, .block cells) :: (file, .file { f with lineStarts := none }) :: own) (n + 1) g w' →
      Q false w')
    (htrue : ∀ lines w', After w₀ ((lines, .lines ((lineTable text).map some)) :: (block, .block cells) ::
      (file, .file { f with lineStarts := some lines, lineCount := (lineTable text).length }) :: own) n g w' →
      Q true w') :
    wp env (computeLineStarts file) Q w := by
  obtain ⟨hcount, htable⟩ := lineTable_wrapped hsmall
  refine wp_bind (wp_loadFile h (.tail _ (.head _)) (wp_bind ?_))
  rw [hcontents]
  refine wp_read h (.head _) hcells hlength.symm ?_
  rw [hcount, htable]
  refine wp_bind (wp_alloc h (fun w' h => ?_) fun lines w' h => ?_)
  · exact wp_bind (wp_storeFile (l := [_]) h hfalse)
  · refine wp_bind (wp_storeFile (l := [_, _]) h fun w' h => ?_)
    refine wp_bind (wp_storeFile (l := [_, _]) h fun w' h => ?_)
    refine wp_bind (wp_writeLines (l := []) h (write_all _) fun w' h => ?_)
    exact htrue lines w' h

theorem wp_freeFile {Q : Option Nat → World → Prop} (h : After w₀ ((file, .file f) :: own) n g w)
    (hlock : f.lock = false) (hQ : ∀ w', After w₀ own n g w' → Q none w') : wp env (freeFile file) Q w :=
  wp_bind (wp_free (l := []) h hlock hQ)

theorem wp_destroyLock {Q : Option Nat → World → Prop} (h : After w₀ ((file, .file f) :: own) n g w)
    (hlock : f.lock = true) (hQ : ∀ w', After w₀ own n g w' → Q none w') : wp env (destroyLock file) Q w :=
  wp_bind (wp_mutexDestroy (l := []) h hlock fun _ h => wp_freeFile h rfl hQ)

def New (w₀ : World) (path : String) (text : List UInt8) (own : List (Nat × Object)) (n : Nat) (g : Globals)
    (file : Nat) (w : World) : Prop :=
  ∃ block lines f, f.filename = some path ∧ f.refCount = 1 ∧ f.lock = true ∧ OfContents f text ∧
    After w₀ (fileParts file block lines f ++ own) n (g.account (·.add text.length)) w

theorem exists_ofContents (filename : Option String) (text : List UInt8) (lock : Bool) :
    ∃ f : SourceFile, OfContents f text ∧ f.filename = filename ∧ f.refCount = 1 ∧ f.lock = lock := by
  let base : SourceFile := ⟨filename, some (text ++ [0]), text.length, none, 0, 0, lock⟩
  let built := { base with
    lineCount := base.countLines
    lineStarts := some (0 :: base.lineEnds.map fun i => (i + 1) % 2 ^ 32) }
  exact ⟨{ built with refCount := 1 }, ⟨base, built, rfl, rfl, rfl, rfl⟩, rfl, rfl, rfl⟩

theorem wp_fillFile {Q : Option Nat → World → Prop} {contents : Nat}
    (h : After w₀ ((block, .block (Blocks.alloc (text.length + 1))) :: (file, .file f) :: own) n g w)
    (hmem : (contents, .block cells) ∈ own) (hcells : Blocks.Holds cells text) (hsmall : text.length < 2 ^ 32 - 1)
    (hname : f.filename = some path) (hblock : f.contents = some block) (hlock : f.lock = true)
    (hnone : ∀ w', After w₀ own (n + 1) g w' → Q none w')
    (hsome : ∀ file w', New w₀ path text own n g file w' → Q (some file) w') :
    wp env (fillFile file block contents text.length) Q w := by
  have hfirst : Blocks.write (Blocks.alloc (text.length + 1)) 0 (text.map some) = some (text.map some ++ [none]) := by
    rw [Blocks.write, if_pos (by simp)]
    simp [Blocks.alloc]
  have hlast : Blocks.write (text.map some ++ [none]) text.length ([0].map some) = some ((text ++ [0]).map some) := by
    rw [Blocks.write, if_pos (by simp)]
    simp
  have hheld : Blocks.Holds ((text ++ [0]).map some) text := ⟨[some 0], by simp⟩
  refine wp_bind (wp_read h (.tail _ (.tail _ hmem)) hcells rfl ?_)
  refine wp_bind (wp_write (l := []) h hfirst fun w' h => ?_)
  refine wp_bind (wp_write (l := []) h hlast fun w' h => ?_)
  refine wp_bind (wp_storeFile (l := [_]) h fun w' h => wp_bind ?_)
  refine wp_computeLineStarts h hblock rfl hheld hsmall (fun w' h => ?_) fun lines w' h => ?_
  · refine wp_bind (wp_free (l := []) h trivial fun w' h => ?_)
    exact wp_destroyLock h hlock hnone
  · refine wp_bind (wp_storeFile (l := [_, _]) h fun w' h => ?_)
    refine wp_bind (wp_account h fun w' h => ?_)
    obtain ⟨made, hmade, hname', hcount, hlock'⟩ := exists_ofContents f.filename text f.lock
    obtain ⟨hcontents, hlength, hlines, hlineCount⟩ := hmade.spec hsmall
    refine hsome file w' ⟨block, lines, made, hname'.trans hname, hcount, hlock'.trans hlock, hmade, ?_⟩
    rw [fileParts, hcontents, hlength, hlines, hlineCount, hname', hcount, hlock', ← hblock]
    exact h

theorem wp_sourceFileNew {Q : Option Nat → World → Prop} {contents : Nat} (h : After w₀ own n g w)
    (hmem : (contents, .block cells) ∈ own) (hcells : Blocks.Holds cells text) (hsmall : text.length < 2 ^ 32 - 1)
    (hnone : ∀ w', After w₀ own (n + 1) g w' ∨ After w₀ own (n + 1) (g.intern path) w' → Q none w')
    (hsome : ∀ file w', New w₀ path text own n (g.intern path) file w' → Q (some file) w') :
    wp env (akSourceFileNew path contents text.length) Q w := by
  have hearly : ∀ w', After w₀ own (n + 1) g w' → Q none w' := fun w' h => hnone w' (.inl h)
  have hlate : ∀ w', After w₀ own (n + 1) (g.intern path) w' → Q none w' := fun w' h => hnone w' (.inr h)
  refine wp_bind (wp_alloc h hearly fun file w' h => wp_bind ?_)
  refine wp_mutexInit (l := []) h rfl (fun w' h => wp_freeFile h rfl hearly) fun w' h => ?_
  refine wp_bind (wp_intern h (fun w' h => ?_) fun w' h => ?_)
  · exact wp_bind (wp_storeFile (l := []) h fun w' h => wp_destroyLock h rfl hearly)
  refine wp_bind (wp_storeFile (l := []) h fun w' h => ?_)
  refine wp_bind (wp_alloc h (fun w' h => ?_) fun block w' h => ?_)
  · exact wp_bind (wp_storeFile (l := []) h fun w' h => wp_destroyLock h rfl hlate)
  refine wp_bind (wp_storeFile (l := [_]) h fun w' h => ?_)
  exact wp_fillFile h hmem hcells hsmall rfl rfl rfl hlate hsome

def Text (w₀ : World) (content : List UInt8) (r : Option (Nat × Nat)) (w : World) : Prop :=
  match r with
  | none => ∃ n, 0 < n ∧ After w₀ [] n w₀.g w
  | some (block, len) => ∃ text cells n, text <+: content ∧ (n = 0 → text = content) ∧ Blocks.Holds cells text ∧
    text.length = len ∧ After w₀ [(block, .block cells)] n w₀.g w

theorem wp_refuseText {s : Stream} {Q : Option (Nat × Nat) → World → Prop}
    (h : After w₀ [(file, .stream s)] n w₀.g w) (hn : 0 < n) (hQ : ∀ r w', Text w₀ content r w' → Q r w') :
    wp env (sys (.fclose file) >>= fun _ => pure none) Q w :=
  wp_bind (wp_fclose (l := []) h fun _ n' w' hle _ h => hQ none w' ⟨n', by omega, h⟩)

theorem wp_readSized {position size : Nat} {Q : Option (Nat × Nat) → World → Prop}
    (h : After w₀ [(file, .stream ⟨content, position, false⟩)] n w₀.g w)
    (hposition : position = 0 ∨ position = content.length) (hclean : n = 0 → position = 0 ∧ size = content.length)
    (hQ : ∀ r w', Text w₀ content r w' → Q r w') : wp env (readSized file (some size)) Q w := by
  refine wp_bind (wp_alloc h (fun w' h => wp_refuseText h (by omega) hQ) fun block w' h => ?_)
  refine wp_bind (wp_fread (l := []) h (by simp) fun k cells n' error w' hk hquiet hle _ hwrite h => ?_)
  have hk₁ : k ≤ size := hk.trans (min_le_left _ _)
  have hk₂ : k ≤ content.length - position := hk.trans (min_le_right _ _)
  set text := Stream.chunk ⟨content, position, false⟩ k with htext
  have hlength : text.length = k := by
    simp only [htext, Stream.chunk, List.length_take, List.length_drop]
    omega
  obtain ⟨cells₁, hwrite₁, hheld₁⟩ :=
    (Blocks.holds_nil (Blocks.alloc (size + 1))).write (l := text) (by simp; omega)
  cases hwrite.symm.trans hwrite₁
  obtain ⟨cells₂, hwrite₂, hheld₂⟩ := hheld₁.write (l := [0]) (by
    rw [Blocks.length_write hwrite, Blocks.length_alloc]
    simp only [List.nil_append, List.length_singleton]
    omega)
  rw [List.nil_append, hlength] at hwrite₂
  refine wp_bind (wp_fclose (l := [_]) h fun _ n'' w' hle' _ h => ?_)
  refine wp_bind (wp_write (l := []) h hwrite₂ fun w' h => ?_)
  refine hQ (some (block, k)) w' ⟨text, cells₂, n'', ?_, fun hn => ?_, hheld₂.left, hlength, h⟩
  · rcases hposition with rfl | rfl
    · exact List.take_prefix k content
    · simp [htext, Stream.chunk]
  · obtain ⟨rfl, rfl⟩ := hclean (by omega)
    obtain ⟨-, hall⟩ := hquiet (by omega)
    have hall : k = content.length := by simpa using hall
    simp [htext, Stream.chunk, hall]

theorem wp_readStream {position : Nat} {Q : Option (Nat × Nat) → World → Prop}
    (h : After w₀ [(file, .stream ⟨content, position, false⟩)] n w₀.g w)
    (hposition : position = 0 ∨ position = content.length) (hclean : n = 0 → position = content.length)
    (hQ : ∀ r w', Text w₀ content r w' → Q r w') : wp env (readStream file) Q w := by
  refine wp_bind (wp_ftell h (.head _) (fun w' h => ?_) fun _ => ?_)
  · refine wp_bind (wp_seekSet (l := []) h (fun w' h => ?_) fun w' h => ?_)
    · exact wp_refuseText h (by omega) hQ
    · exact wp_refuseText h (by omega) hQ
  · refine wp_bind (wp_seekSet (l := []) h (fun w' h => ?_) fun w' h => ?_)
    · exact wp_readSized h hposition (by omega) hQ
    · exact wp_readSized h (.inl rfl) (fun hn => ⟨rfl, hclean hn⟩) hQ

theorem wp_readFile {Q : Option (Nat × Nat) → World → Prop} (w : World) (path : String)
    (hmissing : ∀ w', After w [] 1 w.g w' → Q none w')
    (hQ : ∀ content r w', w.disk path = some content → Text w content r w' → Q r w') :
    wp env (readFile path) Q w := by
  refine wp_bind (wp_fopen (After.start w) hmissing fun file content w' hdisk h => ?_)
  refine wp_bind (wp_seekEnd (l := []) h (fun w' h => ?_) fun w' h => ?_)
  · exact wp_readStream h (.inl rfl) nofun fun r w' => hQ content r w' hdisk
  · exact wp_readStream h (.inr rfl) (fun _ => rfl) fun r w' => hQ content r w' hdisk

theorem declined (h : After w [] n w.g w₀) (hn : 0 < n) : Declined w (some path) w₀ :=
  ⟨h.beside.cells_eq, .inl h.g, .inr (by have := h.failures; omega)⟩

theorem declined_interned (h : After w [] n (w.g.intern path) w₀) (hn : 0 < n) : Declined w (some path) w₀ :=
  ⟨h.beside.cells_eq, .inr ⟨path, rfl, h.g⟩, .inr (by have := h.failures; omega)⟩

theorem wp_sourceFileFromPath (path : Option String) (w : World)
    (hsmall : ∀ content, path.bind w.disk = some content → content.length < 2 ^ 32 - 1) :
    wp env (akSourceFileFromPath path) (Sourced w path) w := by
  cases path with
  | none => exact ⟨rfl, .inl rfl, .inl rfl⟩
  | some path =>
      refine wp_bind (wp_readFile w path (fun w' h => declined h Nat.one_pos) fun content r w' hdisk htext => ?_)
      rcases r with _ | ⟨block, len⟩
      · obtain ⟨n, hn, h⟩ := htext
        exact declined h hn
      · obtain ⟨text, cells, n, hpre, hwhole, hcells, rfl, h⟩ := htext
        have hlen : text.length < 2 ^ 32 - 1 := hpre.length_le.trans_lt (hsmall content hdisk)
        refine wp_bind (wp_sourceFileNew h (.head _) hcells hlen (fun w' h => ?_) fun file w' hnew => ?_)
        · rcases h with h | h
          · exact wp_bind (wp_free (l := []) h trivial fun w' h => declined h (Nat.succ_pos n))
          · exact wp_bind (wp_free (l := []) h trivial fun w' h => declined_interned h (Nat.succ_pos n))
        · obtain ⟨block', lines, f, hname, hcount, hlock, hcontents, h⟩ := hnew
          refine wp_bind (wp_free h trivial fun w' h => ?_)
          rw [List.append_nil] at h
          exact ⟨path, content, text, block', lines, f, n, rfl, hdisk, hpre, hwhole, hname, hcount, hlock, hcontents, h⟩

theorem wp_sourceFileRelease {block lines : Nat} {f : SourceFile} {Q : Unit → World → Prop}
    (h : After w₀ (fileParts file block lines f) n g w) (hcount : f.refCount = 1) (hlock : f.lock = true)
    (hQ : ∀ w', After w₀ [] n (g.account (·.remove f.length)) w' → Q () w') : wp env (akSourceFileRelease file) Q w := by
  refine wp_bind (wp_storeFile (l := [_, _]) h fun w' h => ?_)
  refine wp_bind (wp_loadFile h (.tail _ (.tail _ (.head _))) ?_)
  dsimp only
  rw [hcount, if_pos (by decide)]
  refine wp_bind (wp_account h fun w' h => ?_)
  refine wp_bind (wp_free (l := []) h trivial fun w' h => ?_)
  refine wp_bind (wp_free (l := []) h trivial fun w' h => ?_)
  refine wp_bind (wp_mutexDestroy (l := []) h hlock fun w' h => ?_)
  exact wp_free (l := []) h rfl hQ

theorem remove_add (g : SourcelocSystem) (len : Nat) (hfiles : g.fileCount < 2 ^ 64) (hbytes : g.totalBytes < 2 ^ 64) :
    (g.add len).remove len = g := by
  obtain ⟨fileCount, totalBytes, initialized⟩ := g
  dsimp only at hfiles hbytes
  cases initialized with
  | false => rfl
  | true =>
      simp only [SourcelocSystem.add, SourcelocSystem.remove, if_true, SourcelocSystem.mk.injEq, and_true]
      omega

/-- What the release of the loaded file leaves: of the load only the interned name. -/
def Released (w : World) (path : Option String) (w' : World) : Prop :=
  w'.objects.cells = w.objects.cells ∧ ∃ name, path = some name ∧ w'.g = w.g.intern name

theorem wp_releaseSourced {path : Option String} {w' : World} (h : Sourced w path (some file) w')
    (hsmall : ∀ content, path.bind w.disk = some content → content.length < 2 ^ 32 - 1)
    (hfiles : w.g.sourceloc.fileCount < 2 ^ 64) (hbytes : w.g.sourceloc.totalBytes < 2 ^ 64) :
    wp env (akSourceFileRelease file) (fun _ w'' => Released w path w'') w' := by
  obtain ⟨name, content, text, block, lines, f, n, rfl, hcontent, hpre, -, -, hcount, hlock, htext, h⟩ := h
  have hlength := (htext.spec (hpre.length_le.trans_lt (hsmall content hcontent))).2.1
  refine wp_sourceFileRelease h hcount hlock fun w'' h => ⟨h.beside.cells_eq, name, rfl, h.g.trans ?_⟩
  rw [hlength, Globals.account, Globals.account, Globals.intern]
  dsimp only
  rw [remove_add w.g.sourceloc text.length hfiles hbytes]

/-- Whatever the C library and the allocator answer, `ak_source_file_from_path`
gives a file with a beginning of what is on the disk, and with all of it unless
a call fails. It leaves nothing else but the interned name of the file, and the
release of the file leaves the objects and the statistics of before. -/
theorem source_file_loaded_released (path : Option String) (w : World)
    (hsmall : ∀ content, path.bind w.disk = some content → content.length < 2 ^ 32 - 1)
    (hfiles : w.g.sourceloc.fileCount < 2 ^ 64) (hbytes : w.g.sourceloc.totalBytes < 2 ^ 64) :
    (∀ call next w', Steps env (akSourceFileFromPath path) w (.ask call next) w' → legal w' call) ∧
    (∀ r w', Steps env (akSourceFileFromPath path) w (.done r) w' → Sourced w path r w') ∧
    ∀ file w', Steps env (akSourceFileFromPath path) w (.done (some file)) w' →
      (∀ call next w'', Steps env (akSourceFileRelease file) w' (.ask call next) w'' → legal w'' call) ∧
      ∀ w'', Steps env (akSourceFileRelease file) w' (.done ()) w'' → Released w path w'' := by
  have hload := wp_sourceFileFromPath path w hsmall
  refine ⟨fun call next w' => legal_of_wp hload, fun r w' => post_of_wp hload, fun file w' hsteps => ?_⟩
  have hrelease := wp_releaseSourced (post_of_wp hload hsteps) hsmall hfiles hbytes
  exact ⟨fun call next w'' => legal_of_wp hrelease, fun w'' => post_of_wp hrelease⟩

end Files

def obliging (w : World) : (call : Call) → Answer call × World
  | .fopen path => match w.disk path with
    | none => (none, w.fail)
    | some content => (some w.objects.next, w.add (.stream ⟨content, 0, false⟩))
  | .seekEnd file => match w.objects.cells file with
    | some (.stream s) => (true, w.store file (.stream { s with position := s.content.length }))
    | _ => (false, w.fail)
  | .seekSet file => match w.objects.cells file with
    | some (.stream s) => (true, w.store file (.stream { s with position := 0 }))
    | _ => (false, w.fail)
  | .ftell file => match w.objects.cells file with
    | some (.stream s) => if s.position < 2 ^ 63 then (some s.position, w) else (none, w.fail)
    | _ => (none, w.fail)
  | .fread block n file => match block, w.objects.cells file with
    | some i, some (.stream s) =>
      let k := min n (s.content.length - s.position)
      match w.objects.cells i with
      | some (.block cells) =>
        let cells' := (Blocks.write cells 0 ((s.chunk k).map some)).getD cells
        (k, (w.store i (.block cells')).store file (.stream { s with position := s.position + k }))
      | _ => (0, w)
    | _, _ => (0, w)
  | .ferror file => match w.objects.cells file with
    | some (.stream s) => (s.error, w)
    | _ => (false, w)
  | .fclose file => (true, w.remove file)
  | .alloc o => (some w.objects.next, w.add o)
  | .free id => ((), w.remove id)
  | .read block n => match block.bind w.objects.cells with
    | some (.block cells) => ((cells.take n).reduceOption, w)
    | _ => ([], w)
  | .write block offset bytes => match w.objects.cells block with
    | some (.block cells) => ((), w.store block (.block ((Blocks.write cells offset (bytes.map some)).getD cells)))
    | _ => ((), w)
  | .writeLines lines table => match w.objects.cells lines with
    | some (.lines cells) => ((), w.store lines (.lines ((Blocks.write cells 0 (table.map some)).getD cells)))
    | _ => ((), w)
  | .loadBuffer buffer => match w.objects.cells buffer with
    | some (.buffer b) => (b, w)
    | _ => (.fresh, w)
  | .storeBuffer buffer change => match w.objects.cells buffer with
    | some (.buffer b) => ((), w.store buffer (.buffer (change b)))
    | _ => ((), w)
  | .loadFile file => match w.objects.cells file with
    | some (.file f) => (f, w)
    | _ => (.fresh, w)
  | .storeFile file change => match w.objects.cells file with
    | some (.file f) => ((), w.store file (.file (change f)))
    | _ => ((), w)
  | .mutexInit file => match w.objects.cells file with
    | some (.file f) => (true, w.store file (.file { f with lock := true }))
    | _ => (false, w.fail)
  | .mutexDestroy file => match w.objects.cells file with
    | some (.file f) => ((), w.store file (.file { f with lock := false }))
    | _ => ((), w)
  | .intern name => (some name, { w with g := w.g.intern name })
  | .account change => ((), { w with g := w.g.account change })

theorem obliging_replies (w : World) (call : Call) (h : legal w call) :
    replies w call (obliging w call).1 (obliging w call).2 := by
  cases call with
  | fopen path =>
      cases hdisk : w.disk path with
      | none => simp only [obliging, hdisk]; exact rfl
      | some content => simp only [obliging, hdisk]; exact ⟨rfl, content, hdisk, rfl⟩
  | seekEnd file | seekSet file =>
      obtain ⟨s, hs⟩ := h
      simp only [obliging, hs]
      exact ⟨s, hs, rfl⟩
  | ftell file =>
      obtain ⟨s, hs⟩ := h
      simp only [obliging, hs]
      split_ifs with hsmall
      · exact ⟨rfl, s, hs, rfl, hsmall⟩
      · exact rfl
  | fread block n file =>
      obtain ⟨⟨s, hs⟩, i, cells, rfl, hcells, hroom⟩ := h
      simp only [obliging, hs, hcells]
      obtain ⟨cells', hwrite, -⟩ := (Blocks.holds_nil cells).write
        (l := s.chunk (min n (s.content.length - s.position))) (by simp [Stream.chunk]; omega)
      rw [List.length_nil] at hwrite
      rw [hwrite, Option.getD_some]
      refine ⟨s, i, cells, cells', false, hs, rfl, hcells, le_rfl, fun _ => rfl, hwrite, ?_⟩
      rw [Bool.or_false]
      rfl
  | ferror file =>
      obtain ⟨s, hs⟩ := h
      simp only [obliging, hs]
      exact ⟨rfl, s, hs, rfl⟩
  | read block n =>
      obtain ⟨i, cells, bytes, rfl, hcells, ⟨rest, rfl⟩, rfl⟩ := h
      simp only [obliging, Option.bind_some, hcells]
      refine ⟨rfl, i, _, rfl, hcells, ?_⟩
      simp [List.reduceOption, Blocks.Holds]
  | write block offset bytes =>
      obtain ⟨cells, hcells, hroom⟩ := h
      simp only [obliging, hcells]
      refine ⟨cells, _, hcells, ?_, rfl⟩
      rw [Blocks.write, if_pos (by simpa using hroom), Option.getD_some]
  | writeLines lines table =>
      obtain ⟨cells, hcells, hroom⟩ := h
      simp only [obliging, hcells]
      refine ⟨cells, _, hcells, ?_, rfl⟩
      rw [Blocks.write, if_pos (by simpa using hroom), Option.getD_some]
  | loadBuffer buffer | loadFile file =>
      obtain ⟨o, ho⟩ := h
      simp only [obliging, ho]
      exact ⟨rfl, ho⟩
  | storeBuffer buffer change | storeFile file change =>
      obtain ⟨o, ho⟩ := h
      simp only [obliging, ho]
      exact ⟨o, ho, rfl⟩
  | mutexInit file | mutexDestroy file =>
      obtain ⟨f, hf, -⟩ := h
      simp only [obliging, hf]
      exact ⟨f, hf, rfl⟩
  | alloc o | intern name => exact ⟨rfl, rfl⟩
  | fclose file | free id | account change => exact rfl

/-- A file with two lines, loaded and released. -/
theorem source_file_loaded_released_two_lines :
    let w : World := ⟨Heap.empty Object, fun _ => some [104, 105, 10, 104], 0, ⟨⟨0, 0, true⟩, []⟩⟩
    ∃ w' w'', Steps env (akSourceFileFromPath (some "a")) w (.done (some 2)) w' ∧ w'.g.sourceloc = ⟨1, 4, true⟩ ∧
      Sourced w (some "a") (some 2) w' ∧ Steps env (akSourceFileRelease 2) w' (.done ()) w'' ∧
      w''.objects.cells = w.objects.cells ∧ w''.g = ⟨⟨0, 0, true⟩, ["a"]⟩ := by
  intro w
  have hsmall : ∀ content, (some "a").bind w.disk = some content → content.length < 2 ^ 32 - 1 := by
    rintro content ⟨⟩
    decide
  obtain ⟨-, hsourced, hreleased⟩ := source_file_loaded_released (some "a") w hsmall (by decide) (by decide)
  have hload := steps_run obliging_replies (wp_sourceFileFromPath (some "a") w hsmall)
  have hfile : ((akSourceFileFromPath (some "a")).run obliging w).1 = some 2 := by decide +kernel
  have hg : ((akSourceFileFromPath (some "a")).run obliging w).2.g.sourceloc = ⟨1, 4, true⟩ := by decide +kernel
  generalize (akSourceFileFromPath (some "a")).run obliging w = r at hload hfile hg
  rw [hfile] at hload
  have hmade := hsourced _ _ hload
  have hrelease := steps_run obliging_replies (wp_releaseSourced hmade hsmall (by decide) (by decide))
  obtain ⟨hcells, name, hname, hnames⟩ := (hreleased 2 r.2 hload).2 _ hrelease
  cases hname
  exact ⟨r.2, _, hload, hg, hmade, hrelease, hcells, hnames⟩

end Ak24.FileLoading
