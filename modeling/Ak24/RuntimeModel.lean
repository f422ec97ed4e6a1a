import Ak24.Decimal
import Ak24.FilepathModel
import Ak24.InternModel

namespace Ak24.RuntimeModel

open FilepathModel Decimal

def ascii (text : String) : List UInt8 := text.toList.map fun c => UInt8.ofNat c.toNat

def newline : UInt8 := 10

structure Environment where
  xdgDataHome : Option (List UInt8)
  home : Option (List UInt8)
  pwDir : Option (List UInt8)
  deriving DecidableEq, Repr

def getenv (value : Option (List UInt8)) : Option (List UInt8) := value.filter fun text => text ≠ []

def akFilepathHome (alloc : Nat → Bool) (state : FilepathState) (env : Environment) : Option (List UInt8) :=
  if !state.initialized then none
  else
    match getenv env.home with
    | some home => bufferFromStr alloc home
    | none => env.pwDir.bind (bufferFromStr alloc)

def akFilepathData (alloc : Nat → Bool) (state : FilepathState) (env : Environment) : Option (List UInt8) :=
  if !state.initialized then none
  else
    match getenv env.xdgDataHome with
    | some directory => bufferFromStr alloc directory
    | none => do
      let home ← akFilepathHome alloc state env
      akFilepathJoin alloc state [some home, some (ascii ".local/share")]

def hashString (str : List UInt8) : BitVec 64 := InternModel.hashString str

def hashFilename (appId : List UInt8) : List UInt8 := hexField 16 (hashString appId).toNat ++ ascii ".ak24"

def cstr (alloc : Nat → Bool) (buffer : List UInt8) : Option (List UInt8) :=
  if alloc (buffer.length + 1) then some buffer else none

def runtimeDir (alloc : Nat → Bool) (state : FilepathState) (env : Environment) : Option (List UInt8) := do
  let dataDir ← akFilepathData alloc state env
  let dataDir ← cstr alloc dataDir
  let runtimeDir ← akFilepathJoin alloc state [some dataDir, some (ascii "ak24"), some (ascii "runtime")]
  cstr alloc runtimeDir

/-- The path of the lock file of an application; `none` ends the process. -/
def lockFile (alloc : Nat → Bool) (state : FilepathState) (env : Environment) (appId : List UInt8) :
    Option (List UInt8) := do
  let dirPath ← runtimeDir alloc state env
  let lockPath ← akFilepathJoin alloc state [some dirPath, some (hashFilename appId)]
  cstr alloc lockPath

def readLine : Nat → List UInt8 → List UInt8 × List UInt8
  | 0, text => ([], text)
  | _ + 1, [] => ([], [])
  | n + 1, c :: text =>
    if c = newline then ([c], text)
    else
      let (line, rest) := readLine n text
      (c :: line, rest)

def fgets (size : Nat) (text : List UInt8) : Option (List UInt8 × List UInt8) :=
  if text = [] then none else some (readLine (size - 1) text)

def isSpace (c : UInt8) : Bool := c = 32 ∨ 9 ≤ c.toNat ∧ c.toNat ≤ 13

def atol (text : List UInt8) : Int :=
  match text.dropWhile isSpace with
  | [] => 0
  | c :: digits =>
    if c = 45 then max (-(readDigits 0 digits : Int)) (-2 ^ 63)
    else if c = 43 then min (readDigits 0 digits) (2 ^ 63 - 1)
    else min (readDigits 0 (c :: digits)) (2 ^ 63 - 1)

def toPid (n : Int) : Int := Int.bmod n (2 ^ 32)

def existingPid (text : List UInt8) : Int :=
  match fgets 256 text with
  | none => 0
  | some (_, rest) =>
    match fgets 64 rest with
    | none => 0
    | some (line2, _) => toPid (atol line2)

def lockText (appId : List UInt8) (pid : Nat) : List UInt8 := appId ++ newline :: (decimal pid ++ [newline])

def testId : List UInt8 := ascii "ak24-test"

/-- Whether the process leaves the start because of the lock file; `running` is what
`kill(pid, 0)` says of a process. -/
def lockRefuses (appId : List UInt8) (file : Option (List UInt8)) (running : Int → Bool) : Bool :=
  if appId = testId then false
  else
    match file with
    | none => false
    | some text => 0 < existingPid text && running (existingPid text)

def cleanupRemoves (alloc : Nat → Bool) (state : FilepathState) (env : Environment) (lockPath : List UInt8) : Bool :=
  match runtimeDir alloc state env with
  | none => false
  | some expected => expected.isPrefixOf lockPath

section LockText

variable {x v appId : List UInt8} {n pid : Nat}

theorem readLine_line (hx : newline ∉ x) (hn : x.length < n) : readLine n (x ++ newline :: v) = (x ++ [newline], v) := by
  induction x generalizing n with
  | nil =>
      cases n with
      | zero => cases hn
      | succ n => exact if_pos rfl
  | cons c x ih =>
      rw [List.mem_cons, not_or] at hx
      obtain ⟨hc, hx⟩ := hx
      cases n with
      | zero => cases hn
      | succ n =>
          rw [List.cons_append, readLine, if_neg (Ne.symm hc), ih hx (by simpa using hn)]
          rfl

theorem readLine_append (n : Nat) (x v : List UInt8) : readLine n (x ++ newline :: v) =
    ((readLine n (x ++ [newline])).1, (readLine n (x ++ [newline])).2 ++ v) := by
  induction x generalizing n with
  | nil =>
      cases n with
      | zero => rfl
      | succ n =>
          rw [List.nil_append, List.nil_append, readLine, readLine, if_pos rfl, if_pos rfl]
          rfl
  | cons c x ih =>
      cases n with
      | zero =>
          rw [readLine, readLine]
          simp
      | succ n =>
          rw [List.cons_append, List.cons_append, readLine, readLine]
          by_cases hc : c = newline
          · rw [if_pos hc, if_pos hc]
            simp
          · rw [if_neg hc, if_neg hc, ih n]

theorem readLine_rest (h : newline ∈ x ∨ n ≤ x.length) : ∃ y, (readLine n (x ++ [newline])).2 = y ++ [newline] := by
  induction x generalizing n with
  | nil =>
      rcases h with h | h
      · cases h
      · obtain rfl : n = 0 := by simpa using h
        exact ⟨[], rfl⟩
  | cons c x ih =>
      cases n with
      | zero => exact ⟨c :: x, rfl⟩
      | succ n =>
          rw [List.cons_append, readLine]
          by_cases hc : c = newline
          · rw [if_pos hc]
            exact ⟨x, rfl⟩
          · rw [if_neg hc]
            apply ih
            rcases h with h | h
            · exact .inl ((List.mem_cons.mp h).resolve_left (Ne.symm hc))
            · exact .inr (by simpa using h)

/-- The ids whose lock files can be read back: they are one line, that is not too long. -/
def Recorded (appId : List UInt8) : Prop := newline ∉ appId ∧ appId.length ≤ 254

instance (appId : List UInt8) : Decidable (Recorded appId) := inferInstanceAs (Decidable (_ ∧ _))

theorem atol_decimal (hpid : pid < 2 ^ 63) : atol (decimal pid ++ [newline]) = pid := by
  have hspace : ∀ c ∈ decimal pid, isSpace c = false ∧ c ≠ 45 ∧ c ≠ 43 := by
    intro c hc
    have hdigit := isDigit_of_mem_decimal hc
    rw [isDigit, decide_eq_true_eq] at hdigit
    refine ⟨?_, ?_, ?_⟩
    · rw [isSpace, decide_eq_false_iff_not]
      rintro (rfl | h)
      · exact absurd hdigit.1 (by decide)
      · omega
    · rintro rfl
      exact absurd hdigit.1 (by decide)
    · rintro rfl
      exact absurd hdigit.1 (by decide)
  have hread : readDigits 0 (decimal pid ++ [newline]) = pid := by
    apply readDigits_decimal
    intro c hc
    obtain rfl : newline = c := by simpa using hc
    rfl
  cases hdecimal : decimal pid with
  | nil => exact absurd hdecimal (decimal_ne_nil pid)
  | cons c digits =>
      rw [hdecimal] at hspace hread
      obtain ⟨hnot, hminus, hplus⟩ := hspace c List.mem_cons_self
      rw [atol, List.cons_append, List.dropWhile_cons_of_neg (by rw [hnot]; exact Bool.false_ne_true)]
      dsimp only
      rw [if_neg hminus, if_neg hplus, ← List.cons_append, hread]
      omega

theorem existingPid_append (appId v : List UInt8) : existingPid (appId ++ newline :: v) =
    match fgets 64 ((readLine 255 (appId ++ [newline])).2 ++ v) with
    | none => 0
    | some (line2, _) => toPid (atol line2) := by
  rw [existingPid, fgets, if_neg (by simp), readLine_append]

theorem length_decimal_lt (hpid : pid < 2 ^ 31) : (decimal pid).length < 63 := by
  rw [decimal, digitsOf, List.length_map]
  split_ifs with hzero
  · norm_num
  · rw [List.length_reverse]
    have hlength : (Nat.digits 10 pid).length ≤ 10 := Nat.digits_length_le_iff (by norm_num) pid |>.mpr (by omega)
    omega

/-- The process is read back for an id of one line that the buffer holds, and only
for those. -/
theorem existingPid_lockText_iff (appId : List UInt8) :
    (∀ pid, 0 < pid → pid < 2 ^ 31 → existingPid (lockText appId pid) = pid) ↔ Recorded appId := by
  constructor
  · intro h
    by_contra hnot
    have hbad : newline ∈ appId ∨ 255 ≤ appId.length := by
      rw [Recorded] at hnot
      by_cases hmem : newline ∈ appId
      · exact .inl hmem
      · exact .inr (by by_contra hlt; exact hnot ⟨hmem, by omega⟩)
    obtain ⟨y, hy⟩ := readLine_rest hbad
    have hsame : ∀ v, existingPid (appId ++ newline :: v) = toPid (atol (readLine 63 (y ++ [newline])).1) := by
      intro v
      rw [existingPid_append, hy, List.append_assoc, fgets, if_neg (by simp)]
      dsimp only
      rw [List.singleton_append, readLine_append]
    have hone := h 1 (by norm_num) (by norm_num)
    have htwo := h 2 (by norm_num) (by norm_num)
    rw [lockText, hsame] at hone htwo
    rw [hone] at htwo
    exact absurd htwo (by norm_num)
  · rintro ⟨hline, hlength⟩ pid hpos hpid
    have hnone : newline ∉ decimal pid := fun hmem => absurd (isDigit_of_mem_decimal hmem) (by decide)
    rw [lockText, existingPid_append, readLine_line hline (by omega), List.nil_append, fgets, if_neg (by simp)]
    dsimp only
    rw [readLine_line hnone (length_decimal_lt hpid), atol_decimal (by omega), toPid,
      Int.bmod_eq_of_le (by omega) (by omega)]

end LockText

end Ak24.RuntimeModel
