import Mathlib

namespace Ak24.FilepathModel

structure FilepathState where
  initialized : Bool
  separator : UInt8
  listSeparator : UInt8
  deriving DecidableEq, Repr

def akFilepathInit (state : FilepathState) : FilepathState :=
  if state.initialized then state else ⟨true, 47, 58⟩

def zeroState : FilepathState := ⟨false, 0, 0⟩

def pathMax : Nat := 4096

def isSeparator (c : UInt8) : Bool := c == 47

def akFilepathIsAbsolute (path : List UInt8) : Bool := path.head? == some 47

structure Buffer where
  data : List UInt8
  capacity : Nat
  deriving DecidableEq, Repr

/-- `alloc` answers whether a block of a given size can be obtained. -/
def akBufferNew (alloc : Nat → Bool) (size : Nat) : Option Buffer :=
  if alloc size then some ⟨[], size⟩ else none

def bufferAppendStr (alloc : Nat → Bool) (buf : Buffer) (str : List UInt8) : Buffer :=
  if buf.capacity < buf.data.length + str.length then
    if alloc ((buf.data.length + str.length) * 2) then
      ⟨buf.data ++ str, (buf.data.length + str.length) * 2⟩
    else buf
  else { buf with data := buf.data ++ str }

def bufferAppendChar (alloc : Nat → Bool) (buf : Buffer) (c : UInt8) : Buffer := bufferAppendStr alloc buf [c]

/-- What happens to a complete, non-empty component: "." is skipped, ".." pops
the list if there is anything on it, and a name whose copy cannot be allocated
is left out. -/
def handleComponent (alloc : Nat → Bool) (components : List (List UInt8)) (component : List UInt8) :
    List (List UInt8) :=
  if component = [46] then components
  else if component = [46, 46] then (if 0 < components.length then components.dropLast else components)
  else if alloc (component.length + 1) && alloc 8 then components ++ [component] else components

structure ParseState where
  components : List (List UInt8)
  component : List UInt8
  deriving DecidableEq, Repr

def parseByte (alloc : Nat → Bool) (st : ParseState) (c : UInt8) : ParseState :=
  if isSeparator c then
    if 0 < st.component.length then ⟨handleComponent alloc st.components st.component, []⟩ else st
  else if st.component.length < pathMax - 1 then { st with component := st.component ++ [c] }
  else st

def parseEnd (alloc : Nat → Bool) (st : ParseState) : List (List UInt8) :=
  if 0 < st.component.length then handleComponent alloc st.components st.component else st.components

/-- The loop that writes the components; `first` is true before the first one. -/
def appendComponents (alloc : Nat → Bool) (separator : UInt8) :
    Buffer → Bool → List (List UInt8) → Buffer
  | result, _, [] => result
  | result, first, comp :: comps =>
    let result := if first then result else bufferAppendChar alloc result separator
    appendComponents alloc separator (bufferAppendStr alloc result comp) false comps

def akFilepathNormalize (alloc : Nat → Bool) (state : FilepathState) (path : List UInt8) :
    Option (List UInt8) :=
  if !state.initialized then none
  else do
    let isAbsolute := akFilepathIsAbsolute path
    let components := parseEnd alloc (path.foldl (parseByte alloc) ⟨[], []⟩)
    let result ← akBufferNew alloc 256
    let result := if isAbsolute then bufferAppendChar alloc result state.separator else result
    let result := appendComponents alloc state.separator result true components
    let result := if result.data.length = 0 ∧ !isAbsolute then bufferAppendStr alloc result [46] else result
    some result.data

/-- Appending one component of `ak_filepath_join`, `none` where the argument is
`NULL`. -/
def joinComponent (alloc : Nat → Bool) (separator : UInt8) (result : Buffer) : Option (List UInt8) → Buffer
  | none => result
  | some component =>
    if component = [] then result
    else if result.data.length = 0 then bufferAppendStr alloc result component
    else
      let needsSep := !result.data.getLast?.any isSeparator
      let componentStartsWithSep := component.head?.any isSeparator
      if needsSep && !componentStartsWithSep then
        bufferAppendStr alloc (bufferAppendChar alloc result separator) component
      else if !needsSep && componentStartsWithSep then bufferAppendStr alloc result component.tail
      else bufferAppendStr alloc result component

def akFilepathJoin (alloc : Nat → Bool) (state : FilepathState) (components : List (Option (List UInt8))) :
    Option (List UInt8) :=
  if !state.initialized then none
  else do
    let result ← akBufferNew alloc 256
    some (components.foldl (joinComponent alloc state.separator) result).data

/-- `ak_buffer_new` asks for at least `MIN_BUFFER_SIZE` bytes, and what is copied
into the buffer fits. -/
def bufferFromStr (alloc : Nat → Bool) (str : List UInt8) : Option (List UInt8) := do
  let buf ← akBufferNew alloc (max (str.length + 1) 16)
  some (buf.data ++ str)

def lastSep : List UInt8 → Nat → Option Nat → Option Nat
  | [], _, last => last
  | c :: path, i, last => lastSep path (i + 1) (if isSeparator c then some i else last)

def akFilepathBasename (alloc : Nat → Bool) (state : FilepathState) (path : List UInt8) : Option (List UInt8) :=
  if !state.initialized || path = [] then none
  else
    match lastSep path 0 none with
    | none => bufferFromStr alloc path
    | some last => bufferFromStr alloc (path.drop (last + 1))

def akFilepathDirname (alloc : Nat → Bool) (state : FilepathState) (path : List UInt8) : Option (List UInt8) :=
  if !state.initialized || path = [] then none
  else
    match lastSep path 0 none with
    | none => bufferFromStr alloc [46]
    | some last => if last = 0 then bufferFromStr alloc [state.separator] else bufferFromStr alloc (path.take last)

end Ak24.FilepathModel
