import Ak24.Objects
import Ak24.Transition

namespace Ak24.SourcelocModel

open Objects Transition

/-- An `ak_source_file_t`. A block that the file does not own yet, or no longer,
is `none`; its other fields are written before they are read. -/
structure SourceFile where
  filename : Option String
  contents : Option (List UInt8)
  length : Nat
  lineStarts : Option (List Nat)
  lineCount : Nat
  refCount : Nat
  lock : Bool
  deriving DecidableEq, Repr

def SourceFile.fresh : SourceFile := ⟨none, none, 0, none, 0, 0, false⟩

def structBytes : Nat := 40

def SourceFile.bytes (file : SourceFile) : Nat :=
  structBytes + file.contents.elim 0 List.length + file.lineStarts.elim 0 fun _ => 4 * file.lineCount

def SourceFile.lineEnds (file : SourceFile) : List Nat :=
  (List.range file.length).filter fun i => (file.contents.getD [])[i]? == some 10 && i + 1 < file.length

def SourceFile.countLines (file : SourceFile) : Nat := (1 + file.lineEnds.length) % 2 ^ 32

/-- For fewer than `2 ^ 32` lines: with more of them the array that is asked for is
too short for what the second pass writes. -/
def computeLineStarts (file : SourceFile) (granted : Bool) : Option SourceFile :=
  if !granted then none
  else
    some
      { file with
        lineCount := file.countLines
        lineStarts := some (0 :: file.lineEnds.map fun i => (i + 1) % 2 ^ 32) }

structure SourcelocSystem where
  fileCount : Nat
  totalBytes : Nat
  initialized : Bool
  deriving DecidableEq, Repr

def SourcelocSystem.zero : SourcelocSystem := ⟨0, 0, false⟩

def akSourcelocInit (g : SourcelocSystem) : SourcelocSystem := if g.initialized then g else ⟨0, 0, true⟩

def akSourcelocStats (g : SourcelocSystem) : Nat × Nat := if !g.initialized then (0, 0) else (g.fileCount, g.totalBytes)

def SourcelocSystem.add (g : SourcelocSystem) (len : Nat) : SourcelocSystem :=
  if g.initialized then
    { g with fileCount := (g.fileCount + 1) % 2 ^ 64, totalBytes := (g.totalBytes + len) % 2 ^ 64 }
  else g

def SourcelocSystem.remove (g : SourcelocSystem) (len : Nat) : SourcelocSystem :=
  if g.initialized then
    { g with
      fileCount := (g.fileCount + (2 ^ 64 - 1)) % 2 ^ 64
      totalBytes := (g.totalBytes + (2 ^ 64 - len % 2 ^ 64)) % 2 ^ 64 }
  else g

structure Shared where
  g : SourcelocSystem
  files : Heap SourceFile

def Shared.file (s : Shared) (f : Nat) : SourceFile := (s.files.cells f).getD .fresh

def Shared.write (s : Shared) (f : Nat) (file : SourceFile) : Shared := { s with files := s.files.store f file }

/-- Whether an allocation succeeds: the allocator may refuse any, and the blocks
lie side by side in the address space. -/
def Shared.serves (s : Shared) (granted : Bool) (size : Nat) : Bool :=
  granted && decide (s.files.total SourceFile.bytes + size < 2 ^ 64)

def leadWidth (c : UInt8) : Nat :=
  if c &&& 0x80 = 0 then 1
  else if c &&& 0xE0 = 0xC0 then 2
  else if c &&& 0xF0 = 0xE0 then 3
  else if c &&& 0xF8 = 0xF0 then 4
  else 1

/-- The bytes are `str[0 .. byte_len)`. The cursor may pass their end. -/
def utf8Strlen : List UInt8 → Nat
  | [] => 0
  | c :: rest => if c = 0 then 0 else 1 + utf8Strlen (rest.drop (leadWidth c - 1))
termination_by bytes => bytes.length
decreasing_by
  simp only [List.length_drop, List.length_cons]
  omega

def midpoint (left right : UInt32) : UInt32 := left + (right - left) / 2

theorem toNat_midpoint {left right : UInt32} (h : left ≤ right) :
    (midpoint left right).toNat = left.toNat + (right.toNat - left.toNat) / 2 := by
  have hle := UInt32.le_iff_toNat_le.mp h
  have hlt := right.toNat_lt
  rw [midpoint, UInt32.toNat_add, UInt32.toNat_div, UInt32.toNat_sub_of_le _ _ h]
  exact Nat.mod_eq_of_lt (by simp; omega)

/-- The search loop of `ak_source_loc_from_offset`. There is no result if it reads
`line_starts` out of bounds. -/
def findLine (lineStarts : List Nat) (offset left right lineIdx : UInt32) : Option UInt32 :=
  if _h : left ≤ right then
    match lineStarts[(midpoint left right).toNat]? with
    | none => none
    | some lineStart =>
      if lineStart ≤ offset.toNat then
        if _hr : midpoint left right = right then some (midpoint left right)
        else findLine lineStarts offset (midpoint left right + 1) right (midpoint left right)
      else if _hz : midpoint left right = 0 then some lineIdx
      else findLine lineStarts offset left (midpoint left right - 1) lineIdx
  else some lineIdx
termination_by right.toNat + 1 - left.toNat
decreasing_by
  · have hle := UInt32.le_iff_toNat_le.mp _h
    have hm := toNat_midpoint _h
    have hne : (midpoint left right).toNat ≠ right.toNat := fun he => _hr (UInt32.toNat_inj.mp he)
    have hlt := right.toNat_lt
    rw [UInt32.toNat_add, Nat.mod_eq_of_lt (by simp; omega)]
    simp
    omega
  · have hle := UInt32.le_iff_toNat_le.mp _h
    have hm := toNat_midpoint _h
    have hne : (midpoint left right).toNat ≠ 0 := fun he => _hz (UInt32.toNat_inj.mp he)
    rw [UInt32.toNat_sub_of_le _ _ (UInt32.le_iff_toNat_le.mpr (by simp; omega))]
    simp
    omega

structure SourceLoc where
  file : Option Nat
  line : UInt32
  column : UInt32
  offset : UInt32
  deriving DecidableEq, Repr

def SourceLoc.zero : SourceLoc := ⟨none, 0, 0, 0⟩

/-- There is no result if the call reads `line_starts` out of bounds. -/
def akSourceLocFromOffset (s : Shared) : Option Nat → UInt32 → Option SourceLoc
  | none, _ => some .zero
  | some f, offset =>
    let file := s.file f
    if file.length < offset.toNat then some .zero
    else do
      let lineStarts := file.lineStarts.getD []
      let lineIdx ← findLine lineStarts offset 0 (UInt32.ofNat file.lineCount - 1) 0
      let lineStart ← lineStarts[lineIdx.toNat]?
      let byteOffsetInLine := offset - UInt32.ofNat lineStart
      let line := ((file.contents.getD []).drop lineStart).take byteOffsetInLine.toNat
      some ⟨some f, lineIdx + 1, UInt32.ofNat (utf8Strlen line) + 1, offset⟩

/-- The pointer that `ak_source_get_line` returns, counted from the start of the
contents. There is no result if the call reads `line_starts` out of bounds. -/
def akSourceGetLine (s : Shared) : Option Nat → UInt32 → Option (Option Nat)
  | none, _ => some none
  | some f, line =>
    let file := s.file f
    if line = 0 ∨ file.lineCount < line.toNat then some none
    else do
      let lineIdx := line - 1
      let lineStart ← (file.lineStarts.getD [])[lineIdx.toNat]?
      some (some lineStart)

/-- The two nested tests of `ak_source_get_line_len` for a line break before
`line_end`. Its branches differ in the position they do not look before. -/
def stripLineBreak (contents : List UInt8) (least lineEnd : Nat) : Option Nat :=
  if least < lineEnd then do
    let last ← contents[lineEnd - 1]?
    if last = 10 then
      if least < lineEnd - 1 then do
        let last ← contents[lineEnd - 2]?
        some (if last = 13 then lineEnd - 2 else lineEnd - 1)
      else some (lineEnd - 1)
    else some lineEnd
  else some lineEnd

/-- There is no result if the call reads `line_starts` or `contents` out of bounds. -/
def akSourceGetLineLen (s : Shared) : Option Nat → UInt32 → Option Nat
  | none, _ => some 0
  | some f, line =>
    let file := s.file f
    if line = 0 ∨ file.lineCount < line.toNat then some 0
    else do
      let contents := file.contents.getD []
      let lineStarts := file.lineStarts.getD []
      let lineIdx := line - 1
      let lineStart ← lineStarts[lineIdx.toNat]?
      let lineEnd ←
        if (lineIdx + 1).toNat < file.lineCount then do
          let next ← lineStarts[(lineIdx + 1).toNat]?
          stripLineBreak contents 0 next
        else stripLineBreak contents lineStart (file.length % 2 ^ 32)
      some (if lineStart < lineEnd then lineEnd - lineStart else 0)

/-- What `ak_source_file_new` does next with the struct it has allocated; the last
three are its ways out. -/
inductive Building
  | initLock
  | internName
  | allocContents
  | computeLines
  | freeContents
  | destroyLock
  | freeFile
  deriving DecidableEq, Repr

inductive NewPhase
  | alloc (filename : String) (contents : List UInt8)
  | build (stage : Building) (file : Nat) (filename : String) (contents : List UInt8)
  | count (file len : Nat)
  deriving DecidableEq, Repr

inductive Destroying
  | uncount
  | freeLines
  | freeContents
  | destroyLock
  | freeFile
  deriving DecidableEq, Repr

inductive ReleasePhase
  | decrement (file : Nat)
  | test (file refCount : Nat)
  | destroy (stage : Destroying) (file : Nat)
  deriving DecidableEq, Repr

inductive Phase
  | idle
  | new (p : NewPhase)
  | retain (file : Nat)
  | release (p : ReleasePhase)
  deriving DecidableEq, Repr

structure Thread where
  held : Nat → Nat
  phase : Phase

def Thread.goto (t : Thread) (p : Phase) : Thread := { t with phase := p }

def Thread.gain (t : Thread) (f : Nat) : Thread := { t with held := Function.update t.held f (t.held f + 1) }

def Thread.lose (t : Thread) (f : Nat) : Thread := { t with held := Function.update t.held f (t.held f - 1) }

/-- `used` is an access to the memory of a file, and `dropped` carries the count
that a release has left. -/
inductive Event (ι : Type)
  | used (file : Nat)
  | created (file : Nat)
  | retained (file : Nat)
  | dropped (thread : ι) (file left : Nat)
  | destroyed (thread : ι) (file : Nat)
  | discarded (file : Nat)
  deriving DecidableEq, Repr

variable {ι : Type}

def akSourceFileNew (s : Shared) (t : Thread) (granted : Bool) : NewPhase → Shared × Thread × List (Event ι)
  | .alloc filename contents =>
    if s.serves granted structBytes then
      ({ s with files := s.files.alloc .fresh },
        t.goto (.new (.build .initLock s.files.next filename contents)), [])
    else (s, t.goto .idle, [])
  | .build .initLock f filename contents =>
    if granted then
      (s.write f { s.file f with lock := true }, t.goto (.new (.build .internName f filename contents)), [.used f])
    else (s, t.goto (.new (.build .freeFile f filename contents)), [.used f])
  | .build .internName f filename contents =>
    if granted then
      (s.write f { s.file f with filename := some filename },
        t.goto (.new (.build .allocContents f filename contents)), [.used f])
    else
      (s.write f { s.file f with filename := none }, t.goto (.new (.build .destroyLock f filename contents)), [.used f])
  | .build .allocContents f filename contents =>
    if s.serves granted (contents.length + 1) then
      (s.write f { s.file f with contents := some (contents ++ [0]), length := contents.length },
        t.goto (.new (.build .computeLines f filename contents)), [.used f])
    else
      (s.write f { s.file f with contents := none }, t.goto (.new (.build .destroyLock f filename contents)), [.used f])
  | .build .computeLines f filename contents =>
    match computeLineStarts (s.file f) (s.serves granted (4 * (s.file f).countLines)) with
    | some file => (s.write f { file with refCount := 1 }, t.goto (.new (.count f contents.length)), [.used f])
    | none =>
      (s.write f { s.file f with lineStarts := none },
        t.goto (.new (.build .freeContents f filename contents)), [.used f])
  | .build .freeContents f filename contents =>
    (s.write f { s.file f with contents := none }, t.goto (.new (.build .destroyLock f filename contents)), [.used f])
  | .build .destroyLock f filename contents =>
    (s.write f { s.file f with lock := false }, t.goto (.new (.build .freeFile f filename contents)), [.used f])
  | .build .freeFile f _ _ => ({ s with files := s.files.free f }, t.goto .idle, [.discarded f])
  | .count f len => ({ s with g := s.g.add len }, (t.gain f).goto .idle, [.created f])

def akSourceFileRetain (s : Shared) (t : Thread) (f : Nat) : Shared × Thread × List (Event ι) :=
  (s.write f { s.file f with refCount := ((s.file f).refCount + 1) % 2 ^ 32 }, (t.gain f).goto .idle,
    [.used f, .retained f])

def akSourceFileRelease (s : Shared) (t : Thread) (i : ι) : ReleasePhase → Shared × Thread × List (Event ι)
  | .decrement f =>
    let refCount := ((s.file f).refCount + (2 ^ 32 - 1)) % 2 ^ 32
    (s.write f { s.file f with refCount }, t.goto (.release (.test f refCount)), [.used f, .dropped i f refCount])
  | .test f refCount => (s, t.goto (if refCount = 0 then .release (.destroy .uncount f) else .idle), [])
  | .destroy .uncount f =>
    ({ s with g := s.g.remove (s.file f).length }, t.goto (.release (.destroy .freeLines f)), [.used f])
  | .destroy .freeLines f =>
    (s.write f { s.file f with lineStarts := none }, t.goto (.release (.destroy .freeContents f)), [.used f])
  | .destroy .freeContents f =>
    (s.write f { s.file f with contents := none }, t.goto (.release (.destroy .destroyLock f)), [.used f])
  | .destroy .destroyLock f =>
    (s.write f { s.file f with lock := false }, t.goto (.release (.destroy .freeFile f)), [.used f])
  | .destroy .freeFile f => ({ s with files := s.files.free f }, t.goto .idle, [.destroyed i f])

def call (s : Shared) (t : Thread) (i : ι) (granted : Bool) : Option (Shared × Thread × List (Event ι)) :=
  match t.phase with
  | .idle => none
  | .new p => some (akSourceFileNew s t granted p)
  | .retain f => some (akSourceFileRetain s t f)
  | .release p => some (akSourceFileRelease s t i p)

structure System (ι : Type) where
  shared : Shared
  threads : ι → Thread

variable [DecidableEq ι]

/-- Every order of the threads' steps. A thread retains and releases through a
reference of its own, and may hand one to another thread. -/
inductive Step : System ι → List (Event ι) → System ι → Prop
  | beginNew (s : System ι) (i : ι) (filename : String) (contents : List UInt8)
    (hidle : (s.threads i).phase = .idle) :
    Step s [] { s with threads := Function.update s.threads i ((s.threads i).goto (.new (.alloc filename contents))) }
  | beginRetain (s : System ι) (i : ι) (f : Nat) (hidle : (s.threads i).phase = .idle)
    (hheld : 0 < (s.threads i).held f) :
    Step s [] { s with threads := Function.update s.threads i ((s.threads i).goto (.retain f)) }
  | beginRelease (s : System ι) (i : ι) (f : Nat) (hidle : (s.threads i).phase = .idle)
    (hheld : 0 < (s.threads i).held f) :
    Step s []
      { s with threads := Function.update s.threads i (((s.threads i).lose f).goto (.release (.decrement f))) }
  | handOver (s : System ι) (i j : ι) (f : Nat) (hne : i ≠ j) (hidle : (s.threads i).phase = .idle)
    (hheld : 0 < (s.threads i).held f) :
    Step s []
      { s with
        threads := Function.update (Function.update s.threads i ((s.threads i).lose f)) j ((s.threads j).gain f) }
  | call (s : System ι) (i : ι) (granted : Bool) (shared : Shared) (t : Thread) (events : List (Event ι))
    (h : call s.shared (s.threads i) i granted = some (shared, t, events)) :
    Step s events { s with shared, threads := Function.update s.threads i t }

def System.start (ι : Type) : System ι :=
  ⟨⟨akSourcelocInit .zero, .empty _⟩, fun _ => ⟨fun _ => 0, .idle⟩⟩

end Ak24.SourcelocModel
