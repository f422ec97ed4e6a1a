import Ak24.FilepathJoin
import Ak24.RuntimeModel
import Ak24.Transition

namespace Ak24.RuntimeLock

open FilepathModel RuntimeModel Transition

inductive Phase
  | start
  | checked
  | opened
  | running
  deriving DecidableEq, Repr

/-- A process that has started as an application, with the path of its lock file,
or any other process. -/
inductive Process
  | other
  | app (appId path : List UInt8) (phase : Phase)
  deriving DecidableEq, Repr

structure System where
  files : List UInt8 → Option (List UInt8)
  procs : Nat → Option Process

def System.setProc (s : System) (pid : Nat) (process : Option Process) : System :=
  { s with procs := Function.update s.procs pid process }

def System.setFile (s : System) (path : List UInt8) (file : Option (List UInt8)) : System :=
  { s with files := Function.update s.files path file }

def isProcessRunning (s : System) (pid : Int) : Bool := (s.procs pid.toNat).isSome

inductive Event
  | spawn (pid : Nat)
  | init (pid : Nat) (appId path : List UInt8)
  | check (pid : Nat)
  | truncate (pid : Nat)
  | write (pid : Nat)
  | cleanup (pid : Nat) (removed : Bool)
  | exit (pid : Nat)
  deriving DecidableEq, Repr

/-- The steps of `init_runtime_directory` and `cleanup_lock_file` in any process. The
file is opened for writing, which empties it, before its text is written; a process
can end at any time. -/
inductive Step (s : System) : List Event → System → Prop
  | spawn (pid : Nat) (hfree : s.procs pid = none) (hpos : 0 < pid) (hpid : pid < 2 ^ 31) :
    Step s [.spawn pid] (s.setProc pid (some .other))
  | init (pid : Nat) (alloc : Nat → Bool) (env : Environment) (appId path : List UInt8)
    (hproc : s.procs pid = some .other) (hne : appId ≠ [])
    (hpath : lockFile alloc (akFilepathInit zeroState) env appId = some path) :
    Step s [.init pid appId path] (s.setProc pid (some (.app appId path .start)))
  | check (pid : Nat) (appId path : List UInt8) (hproc : s.procs pid = some (.app appId path .start)) :
    Step s [.check pid] (s.setProc pid
      (if lockRefuses appId (s.files path) (isProcessRunning s) then none else some (.app appId path .checked)))
  | truncate (pid : Nat) (appId path : List UInt8) (hproc : s.procs pid = some (.app appId path .checked)) :
    Step s [.truncate pid] ((s.setFile path (some [])).setProc pid (some (.app appId path .opened)))
  | write (pid : Nat) (appId path : List UInt8) (hproc : s.procs pid = some (.app appId path .opened)) :
    Step s [.write pid] ((s.setFile path (some (lockText appId pid))).setProc pid (some (.app appId path .running)))
  | cleanup (pid : Nat) (alloc : Nat → Bool) (env : Environment) (appId path : List UInt8)
    (hproc : s.procs pid = some (.app appId path .running)) :
    Step s [.cleanup pid (cleanupRemoves alloc (akFilepathInit zeroState) env path)]
      ((s.setFile path (if cleanupRemoves alloc (akFilepathInit zeroState) env path then none else s.files path)).setProc
        pid (some .other))
  | exit (pid : Nat) (hproc : s.procs pid ≠ none) : Step s [.exit pid] (s.setProc pid none)

def Idle (s : System) : Prop := ∀ pid process, s.procs pid = some process → process = .other ∧ 0 < pid ∧ pid < 2 ^ 31

def Active (path : List UInt8) (s : System) (pid : Nat) : Prop :=
  ∃ appId phase, s.procs pid = some (.app appId path phase) ∧ phase ≠ .start

def Running (path : List UInt8) (s : System) (pid : Nat) : Prop := ∃ appId, s.procs pid = some (.app appId path .running)

/-- The ids at the path can be recorded and are not `ak24-test`, which checks no
file, and no process checks the file while another is between its check and its
write. -/
def Orderly (path : List UInt8) (s : System) (events : List Event) : Prop :=
  ∀ event ∈ events,
    match event with
    | .init _ appId p => p = path → Recorded appId ∧ appId ≠ testId
    | .check pid =>
      ∀ appId, s.procs pid = some (.app appId path .start) →
        ∀ other, Active path s other → Running path s other
    | _ => True

structure LockOk (path : List UInt8) (s : System) : Prop where
  pids : ∀ pid, s.procs pid ≠ none → 0 < pid ∧ pid < 2 ^ 31
  ids : ∀ pid appId phase, s.procs pid = some (.app appId path phase) → Recorded appId ∧ appId ≠ testId
  sole : ∀ pid other, Active path s pid → Active path s other → pid = other
  text : ∀ pid appId, s.procs pid = some (.app appId path .running) → s.files path = some (lockText appId pid)

section Steps

variable {s s' s₀ : System} {path : List UInt8} {pid other : Nat} {events : List Event}

@[simp]
theorem setProc_files (s : System) (pid : Nat) (process : Option Process) : (s.setProc pid process).files = s.files := rfl

@[simp]
theorem setFile_procs (s : System) (p : List UInt8) (file : Option (List UInt8)) :
    (s.setFile p file).procs = s.procs := rfl

theorem setProc_procs (s : System) (pid : Nat) (process : Option Process) (other : Nat) :
    (s.setProc pid process).procs other = if other = pid then process else s.procs other :=
  Function.update_apply ..

theorem setFile_files (s : System) (p : List UInt8) (file : Option (List UInt8)) (path : List UInt8) :
    (s.setFile p file).files path = if path = p then file else s.files path :=
  Function.update_apply ..

theorem setFile_same (s : System) (p : List UInt8) : s.setFile p (s.files p) = s := by
  rw [System.setFile, Function.update_eq_self]

theorem LockOk.change (h : LockOk path s) {p : List UInt8} {file : Option (List UInt8)} {process : Option Process}
    (hold : s.procs pid ≠ none ∨ 0 < pid ∧ pid < 2 ^ 31)
    (hid : ∀ appId phase, process = some (.app appId path phase) → Recorded appId ∧ appId ≠ testId)
    (hactive : ∀ appId phase, process = some (.app appId path phase) → phase ≠ .start →
      ∀ other, Active path s other → other = pid)
    (hfile : path = p → file = s.files path ∨ Active path s pid)
    (htext : ∀ appId, process = some (.app appId path .running) → path = p ∧ file = some (lockText appId pid)) :
    LockOk path ((s.setFile p file).setProc pid process) := by
  have hother : ∀ q, Active path ((s.setFile p file).setProc pid process) q → q ≠ pid → Active path s q := by
    rintro q ⟨appId, phase, hq, hphase⟩ hne
    rw [setProc_procs, if_neg hne] at hq
    exact ⟨appId, phase, hq, hphase⟩
  have hself : Active path ((s.setFile p file).setProc pid process) pid → ∀ q, Active path s q → q = pid := by
    rintro ⟨appId, phase, hq, hphase⟩
    rw [setProc_procs, if_pos rfl] at hq
    exact hactive appId phase hq hphase
  constructor
  · intro q hq
    by_cases hne : q = pid
    · subst q
      exact hold.elim (h.pids pid) id
    · rw [setProc_procs, if_neg hne] at hq
      exact h.pids q hq
  · intro q appId phase hq
    rw [setProc_procs] at hq
    split_ifs at hq
    · exact hid appId phase hq
    · exact h.ids q appId phase hq
  · intro q r hq hr
    by_cases hqp : q = pid
    · by_cases hrp : r = pid
      · exact hqp.trans hrp.symm
      · exact absurd (hself (hqp ▸ hq) r (hother r hr hrp)) hrp
    · by_cases hrp : r = pid
      · exact absurd (hself (hrp ▸ hr) q (hother q hq hqp)) hqp
      · exact h.sole q r (hother q hq hqp) (hother r hr hrp)
  · intro q appId hq
    rw [setProc_procs] at hq
    rw [setProc_files, setFile_files]
    split_ifs at hq with hqp
    · obtain ⟨hp, hwritten⟩ := htext appId hq
      rw [if_pos hp, hwritten, hqp]
    · by_cases hp : path = p
      · rw [if_pos hp]
        rcases hfile hp with hsame | hactive'
        · rw [hsame, h.text q appId hq]
        · exact absurd (h.sole q pid ⟨appId, .running, hq, Phase.noConfusion⟩ hactive') hqp
      · rw [if_neg hp, h.text q appId hq]

theorem LockOk.setProc (h : LockOk path s) {process : Option Process} (hold : s.procs pid ≠ none ∨ 0 < pid ∧ pid < 2 ^ 31)
    (hid : ∀ appId phase, process = some (.app appId path phase) → Recorded appId ∧ appId ≠ testId)
    (hactive : ∀ appId phase, process = some (.app appId path phase) → phase ≠ .start →
      ∀ other, Active path s other → other = pid)
    (hrunning : ∀ appId, process ≠ some (.app appId path .running)) : LockOk path (s.setProc pid process) := by
  have hchange : LockOk path ((s.setFile path (s.files path)).setProc pid process) :=
    h.change hold hid hactive (fun _ => .inl rfl) fun appId hprocess => absurd hprocess (hrunning appId)
  rwa [setFile_same] at hchange

/-- A process that is past its check is found in the file by the next check. -/
theorem LockOk.refuses (h : LockOk path s) (hrunning : Running path s other) {appId : List UInt8} (hid : appId ≠ testId) :
    lockRefuses appId (s.files path) (isProcessRunning s) = true := by
  obtain ⟨id, hother⟩ := hrunning
  have hsome : s.procs other ≠ none := by
    rw [hother]
    exact Option.some_ne_none _
  obtain ⟨hpos, hpid⟩ := h.pids other hsome
  have hread := (existingPid_lockText_iff id).mpr (h.ids other id .running hother).1 other hpos hpid
  rw [h.text other id hother, lockRefuses, if_neg hid]
  rw [hread, isProcessRunning, Int.toNat_natCast, hother]
  simpa using hpos

theorem orderly_check (h : ∀ other, Active path s other → Running path s other) : Orderly path s [.check pid] := by
  intro event hevent
  obtain rfl := List.mem_singleton.mp hevent
  exact fun _ _ => h

theorem LockOk.step (h : LockOk path s) (hs : Step s events s') (hguard : Orderly path s events) : LockOk path s' := by
  cases hs with
  | spawn pid hfree hpos hpid =>
      exact h.setProc (.inr ⟨hpos, hpid⟩) (fun _ _ heq => nomatch heq) (fun _ _ heq => nomatch heq) fun _ heq => nomatch heq
  | init pid alloc env appId p hproc hne hpath =>
      apply h.setProc
      · exact .inl (by rw [hproc]; exact Option.some_ne_none _)
      · rintro _ _ ⟨⟩
        exact hguard _ (List.mem_singleton_self _) rfl
      · rintro _ _ ⟨⟩ hphase
        exact absurd rfl hphase
      · rintro _ ⟨⟩
  | check pid appId p hproc =>
      apply h.setProc
      · exact .inl (by rw [hproc]; exact Option.some_ne_none _)
      · intro id phase heq
        split_ifs at heq
        cases heq
        exact h.ids pid appId .start hproc
      · intro id phase heq _ q hq
        split_ifs at heq with hrefuses
        cases heq
        have hrunning := hguard _ (List.mem_singleton_self _) appId hproc q hq
        exact absurd (h.refuses hrunning (h.ids pid appId .start hproc).2) hrefuses
      · intro id heq
        split_ifs at heq
        cases heq
  | truncate pid appId p hproc =>
      have hactive : p = path → Active path s pid := by
        rintro rfl
        exact ⟨appId, .checked, hproc, Phase.noConfusion⟩
      apply h.change
      · exact .inl (by rw [hproc]; exact Option.some_ne_none _)
      · rintro _ _ ⟨⟩
        exact h.ids pid appId .checked hproc
      · rintro _ _ ⟨⟩ _ q hq
        exact h.sole q pid hq (hactive rfl)
      · exact fun hp => .inr (hactive hp.symm)
      · rintro _ ⟨⟩
  | write pid appId p hproc =>
      have hactive : p = path → Active path s pid := by
        rintro rfl
        exact ⟨appId, .opened, hproc, Phase.noConfusion⟩
      apply h.change
      · exact .inl (by rw [hproc]; exact Option.some_ne_none _)
      · rintro _ _ ⟨⟩
        exact h.ids pid appId .opened hproc
      · rintro _ _ ⟨⟩ _ q hq
        exact h.sole q pid hq (hactive rfl)
      · exact fun hp => .inr (hactive hp.symm)
      · rintro _ ⟨⟩
        exact ⟨rfl, rfl⟩
  | cleanup pid alloc env appId p hproc =>
      have hactive : p = path → Active path s pid := by
        rintro rfl
        exact ⟨appId, .running, hproc, Phase.noConfusion⟩
      apply h.change
      · exact .inl (by rw [hproc]; exact Option.some_ne_none _)
      · rintro _ _ ⟨⟩
      · rintro _ _ ⟨⟩
      · exact fun hp => .inr (hactive hp.symm)
      · rintro _ ⟨⟩
  | exit pid hproc =>
      exact h.setProc (.inl hproc) (fun _ _ heq => nomatch heq) (fun _ _ heq => nomatch heq) fun _ heq => nomatch heq

end Steps

section Paths

open FilepathJoin PathJoin PathResolve

variable {alloc : Nat → Bool} {env : Environment} {appId other dir path x y : List UInt8}

theorem joinAll_present_pair (x y : Name) : joinAll (present [some x, some y]) = joinPath x y := by
  by_cases hx : x = []
  · by_cases hy : y = [] <;> simp [present, joinAll, hx, hy]
  · by_cases hy : y = [] <;> simp [present, joinAll, hx, hy]

theorem lockFile_eq (halloc : ∀ n, alloc n = true) (env : Environment) (appId : List UInt8) :
    lockFile alloc (akFilepathInit zeroState) env appId =
      (runtimeDir alloc (akFilepathInit zeroState) env).map fun dir => joinPath dir (hashFilename appId) := by
  rw [lockFile]
  cases runtimeDir alloc (akFilepathInit zeroState) env with
  | none => rfl
  | some dir =>
      dsimp only [Option.bind_eq_bind, Option.bind_some, Option.map_some]
      rw [akFilepathJoin_eq halloc, joinAll_present_pair, Option.bind_some, cstr, if_pos (halloc _)]

theorem prefix_joinPath (x y : Name) : x <+: joinPath x y := by
  by_cases hx : x = []
  · rw [hx]
    exact List.nil_prefix
  · by_cases hy : y = []
    · rw [hy, joinPath_nil_right]
    · rw [joinPath_eq hx hy]
      split_ifs
      all_goals exact List.prefix_append _ _

theorem cleanupRemoves_lockFile (halloc : ∀ n, alloc n = true)
    (h : lockFile alloc (akFilepathInit zeroState) env appId = some path) :
    cleanupRemoves alloc (akFilepathInit zeroState) env path = true := by
  rw [lockFile_eq halloc] at h
  rw [cleanupRemoves]
  cases hdir : runtimeDir alloc (akFilepathInit zeroState) env with
  | none =>
      rw [hdir] at h
      cases h
  | some dir =>
      rw [hdir] at h
      cases h
      exact List.isPrefixOf_iff_prefix.mpr (prefix_joinPath dir _)

end Paths

section Runs

variable {s s' s₀ : System} {path : List UInt8} {trace events : List Event}

theorem Idle.lockOk (h : Idle s₀) (path : List UInt8) : LockOk path s₀ := by
  have hother : ∀ pid appId phase, s₀.procs pid ≠ some (.app appId path phase) := by
    intro pid appId phase hproc
    exact Process.noConfusion (h pid _ hproc).1
  constructor
  · intro pid hproc
    obtain ⟨process, hprocess⟩ := Option.ne_none_iff_exists'.mp hproc
    exact (h pid process hprocess).2
  · exact fun pid appId phase hproc => absurd hproc (hother pid appId phase)
  · rintro pid other ⟨appId, phase, hproc, -⟩
    exact absurd hproc (hother pid appId phase)
  · exact fun pid appId hproc => absurd hproc (hother pid appId .running)

/-- Applications end as the code means them to: by `cleanup_lock_file`, and it
finds the file where it was made. -/
def EndsClean (path : List UInt8) (s : System) (events : List Event) : Prop :=
  ∀ event ∈ events,
    match event with
    | .cleanup pid removed => Running path s pid → removed = true
    | .exit pid => ¬Active path s pid
    | _ => True

/-- The file is not there without a process that made it and is still at work. -/
def Attended (path : List UInt8) (s : System) : Prop :=
  s.files path ≠ none → ∃ pid appId phase, s.procs pid = some (.app appId path phase) ∧ (phase = .opened ∨ phase = .running)

theorem Attended.keep (h : Attended path s) {pid : Nat} {process : Option Process}
    (hpid : ∀ appId phase, s.procs pid = some (.app appId path phase) → phase ≠ .opened ∧ phase ≠ .running) :
    Attended path (s.setProc pid process) := by
  intro hfile
  obtain ⟨q, appId, phase, hq, hphase⟩ := h hfile
  have hne : q ≠ pid := by
    rintro rfl
    obtain ⟨hopened, hrunning⟩ := hpid appId phase hq
    exact hphase.elim hopened hrunning
  exact ⟨q, appId, phase, by rwa [setProc_procs, if_neg hne], hphase⟩

theorem Attended.work (h : Attended path s) {pid : Nat} {appId p : List UInt8} {phase : Phase}
    {file : Option (List UInt8)} {process : Option Process} (hproc : s.procs pid = some (.app appId p phase))
    (hnew : p = path → file ≠ none →
      ∃ id phase', process = some (.app id path phase') ∧ (phase' = .opened ∨ phase' = .running)) :
    Attended path ((s.setFile p file).setProc pid process) := by
  intro hfile
  rw [setProc_files, setFile_files] at hfile
  by_cases hp : path = p
  · rw [if_pos hp] at hfile
    obtain ⟨id, phase', hprocess, hphase⟩ := hnew hp.symm hfile
    exact ⟨pid, id, phase', by rw [setProc_procs, if_pos rfl, hprocess], hphase⟩
  · rw [if_neg hp] at hfile
    obtain ⟨q, id, phase', hq, hphase⟩ := h hfile
    have hne : q ≠ pid := by
      rintro rfl
      rw [hproc] at hq
      cases hq
      exact hp rfl
    exact ⟨q, id, phase', by rwa [setProc_procs, if_neg hne], hphase⟩

theorem Attended.step (h : Attended path s) (hs : Step s events s') (hguard : EndsClean path s events) :
    Attended path s' := by
  cases hs with
  | spawn pid hfree hpos hpid =>
      apply h.keep
      intro appId phase hproc
      rw [hfree] at hproc
      cases hproc
  | init pid alloc env appId p hproc hne hpath =>
      apply h.keep
      intro id phase hproc'
      rw [hproc] at hproc'
      cases hproc'
  | check pid appId p hproc =>
      apply h.keep
      intro id phase hproc'
      rw [hproc] at hproc'
      cases hproc'
      exact ⟨Phase.noConfusion, Phase.noConfusion⟩
  | truncate pid appId p hproc =>
      apply h.work hproc
      rintro rfl _
      exact ⟨appId, .opened, rfl, .inl rfl⟩
  | write pid appId p hproc =>
      apply h.work hproc
      rintro rfl _
      exact ⟨appId, .running, rfl, .inr rfl⟩
  | cleanup pid alloc env appId p hproc =>
      apply h.work hproc
      rintro rfl hfile
      rw [hguard _ (List.mem_singleton_self _) ⟨appId, hproc⟩] at hfile
      exact absurd rfl hfile
  | exit pid hproc =>
      apply h.keep
      intro appId phase hproc'
      have hnot := hguard _ (List.mem_singleton_self _)
      by_contra hphase
      apply hnot
      refine ⟨appId, phase, hproc', ?_⟩
      rintro rfl
      exact hphase ⟨Phase.noConfusion, Phase.noConfusion⟩

end Runs

/-- Where no check of the lock file falls between another's check and its write, at
most one process runs with the file, and the file names it. -/
theorem lock_exclusive (path : List UInt8) (s₀ s : System) (trace : List Event) (hidle : Idle s₀)
    (hrun : Run (guarded (Orderly path) Step) s₀ trace s) :
    (∀ p q, Running path s p → Running path s q → p = q) ∧
      ∀ p, Running path s p → ∃ text, s.files path = some text ∧ existingPid text = p := by
  have hinv : LockOk path s := by
    apply hrun.invariant (P := fun _ s => LockOk path s)
    · exact hidle.lockOk path
    · rintro trace s events s' h ⟨hs, hguard⟩
      exact h.step hs hguard
  constructor
  · rintro p q ⟨id, hp⟩ ⟨id', hq⟩
    exact hinv.sole p q ⟨id, .running, hp, Phase.noConfusion⟩ ⟨id', .running, hq, Phase.noConfusion⟩
  · rintro p ⟨id, hp⟩
    have hsome : s.procs p ≠ none := by
      rw [hp]
      exact Option.some_ne_none _
    obtain ⟨hpos, hpid⟩ := hinv.pids p hsome
    refine ⟨lockText id p, hinv.text p id hp, ?_⟩
    exact (existingPid_lockText_iff id).mpr (hinv.ids p id .running hp).1 p hpos hpid

def waiting : System := ⟨fun _ => none, fun pid => if pid = 7 ∨ pid = 9 then some .other else none⟩

theorem waiting_idle : Idle waiting := by
  intro pid process hproc
  simp only [waiting] at hproc
  split_ifs at hproc with hpid
  cases hproc
  exact ⟨rfl, by omega, by omega⟩

/-- The second start of one application ends its process. -/
theorem lock_exclusive_second : ∃ path s trace, Run (guarded (Orderly path) Step) waiting trace s ∧ Running path s 7 ∧
    s.procs 9 = none ∧ ∃ text, s.files path = some text ∧ existingPid text = 7 := by
  obtain ⟨path, hpath⟩ : ∃ path,
      lockFile (fun _ => true) (akFilepathInit zeroState) ⟨none, some [47], none⟩ [97] = some path :=
    Option.isSome_iff_exists.mp (by decide)
  let s₁ := waiting.setProc 7 (some (.app [97] path .start))
  let s₂ := s₁.setProc 7 (some (.app [97] path .checked))
  let s₃ := (s₂.setFile path (some [])).setProc 7 (some (.app [97] path .opened))
  let s₄ := (s₃.setFile path (some (lockText [97] 7))).setProc 7 (some (.app [97] path .running))
  let s₅ := s₄.setProc 9 (some (.app [97] path .start))
  have hfile : s₅.files path = some (lockText [97] 7) := by
    rw [setProc_files, setProc_files, setFile_files, if_pos rfl]
  have hread : existingPid (lockText [97] 7) = 7 := (existingPid_lockText_iff [97]).mpr (by decide) 7 (by decide) (by decide)
  have hinit : ∀ s pid, Orderly path s [.init pid [97] path] := by
    intro s pid event hevent
    obtain rfl := List.mem_singleton.mp hevent
    exact fun _ => by decide
  have hnone : ∀ other, ¬Active path waiting other := by
    rintro other ⟨id, phase, hproc, -⟩
    exact Process.noConfusion (waiting_idle other _ hproc).1
  have h₁ : guarded (Orderly path) Step waiting [.init 7 [97] path] s₁ :=
    ⟨.init 7 _ _ [97] path rfl (by decide) hpath, hinit waiting 7⟩
  have h₂ : guarded (Orderly path) Step s₁ [.check 7] s₂ := by
    refine ⟨.check 7 [97] path rfl, orderly_check fun other hactive => ?_⟩
    obtain ⟨id, phase, hproc, hphase⟩ := hactive
    rw [setProc_procs] at hproc
    split_ifs at hproc
    · cases hproc
      exact absurd rfl hphase
    · exact absurd ⟨id, phase, hproc, hphase⟩ (hnone other)
  have h₃ : guarded (Orderly path) Step s₂ [.truncate 7] s₃ :=
    ⟨.truncate 7 [97] path rfl, fun event hevent => List.mem_singleton.mp hevent ▸ trivial⟩
  have h₄ : guarded (Orderly path) Step s₃ [.write 7] s₄ :=
    ⟨.write 7 [97] path rfl, fun event hevent => List.mem_singleton.mp hevent ▸ trivial⟩
  have h₅ : guarded (Orderly path) Step s₄ [.init 9 [97] path] s₅ :=
    ⟨.init 9 _ _ [97] path rfl (by decide) hpath, hinit s₄ 9⟩
  have h₆ : guarded (Orderly path) Step s₅ [.check 9] (s₅.setProc 9 none) := by
    have hrefuses : lockRefuses [97] (s₅.files path) (isProcessRunning s₅) = true := by
      rw [hfile, lockRefuses, if_neg (by decide), hread]
      rfl
    have hstep := Step.check (s := s₅) 9 [97] path rfl
    rw [if_pos hrefuses] at hstep
    refine ⟨hstep, orderly_check fun other hactive => ?_⟩
    obtain ⟨id, phase, hproc, hphase⟩ := hactive
    rw [setProc_procs] at hproc
    split_ifs at hproc with hnine
    · cases hproc
      exact absurd rfl hphase
    · by_cases hseven : other = 7
      · subst other
        exact ⟨[97], rfl⟩
      · simp only [s₄, s₃, s₂, s₁, setProc_procs, setFile_procs, if_neg hseven] at hproc
        exact absurd ⟨id, phase, hproc, hphase⟩ (hnone other)
  have hrun := ((((((Run.start.next h₁).next h₂).next h₃).next h₄).next h₅).next h₆)
  refine ⟨path, _, _, hrun, ⟨[97], rfl⟩, rfl, ?_⟩
  exact (lock_exclusive path waiting _ _ waiting_idle hrun).2 7 ⟨[97], rfl⟩

/-- A file that was not there at first is gone again once no process is at work,
where applications end by removing it. -/
theorem lock_released (path : List UInt8) (s₀ s : System) (trace : List Event) (hfile : s₀.files path = none)
    (hrun : Run (guarded (EndsClean path) Step) s₀ trace s) : Attended path s := by
  apply hrun.invariant (P := fun _ s => Attended path s)
  · exact fun hne => absurd hfile hne
  · rintro trace s events s' h ⟨hs, hguard⟩
    exact h.step hs hguard

/-- A process makes the lock file, works and cleans up: the file is gone. -/
theorem lock_released_cleanup : ∃ path s, Run (guarded (EndsClean path) Step) waiting
    [.init 7 [97] path, .check 7, .truncate 7, .write 7, .cleanup 7 true] s ∧ s.files path = none := by
  let env : Environment := ⟨none, some [47], none⟩
  obtain ⟨path, hpath⟩ : ∃ path, lockFile (fun _ => true) (akFilepathInit zeroState) env [97] = some path :=
    Option.isSome_iff_exists.mp (by decide)
  have hremoved := cleanupRemoves_lockFile (fun _ => rfl) hpath
  let s₁ := waiting.setProc 7 (some (.app [97] path .start))
  let s₂ := s₁.setProc 7 (some (.app [97] path .checked))
  let s₃ := (s₂.setFile path (some [])).setProc 7 (some (.app [97] path .opened))
  let s₄ := (s₃.setFile path (some (lockText [97] 7))).setProc 7 (some (.app [97] path .running))
  let s₅ := (s₄.setFile path none).setProc 7 (some .other)
  have hquiet {event : Event} (h : event = .init 7 [97] path ∨ event = .check 7 ∨ event = .truncate 7 ∨ event = .write 7)
      (s : System) : EndsClean path s [event] := by
    intro e he
    obtain rfl := List.mem_singleton.mp he
    rcases h with rfl | rfl | rfl | rfl <;> trivial
  have h₁ : guarded (EndsClean path) Step waiting [.init 7 [97] path] s₁ :=
    ⟨.init 7 _ _ [97] path rfl (by decide) hpath, hquiet (by simp) waiting⟩
  have h₂ : guarded (EndsClean path) Step s₁ [.check 7] s₂ := ⟨.check 7 [97] path rfl, hquiet (by simp) s₁⟩
  have h₃ : guarded (EndsClean path) Step s₂ [.truncate 7] s₃ := ⟨.truncate 7 [97] path rfl, hquiet (by simp) s₂⟩
  have h₄ : guarded (EndsClean path) Step s₃ [.write 7] s₄ := ⟨.write 7 [97] path rfl, hquiet (by simp) s₃⟩
  have h₅ : guarded (EndsClean path) Step s₄ [.cleanup 7 true] s₅ := by
    have hstep := Step.cleanup (s := s₄) 7 (fun _ => true) env [97] path rfl
    rw [hremoved, if_pos rfl] at hstep
    exact ⟨hstep, fun event hevent => List.mem_singleton.mp hevent ▸ fun _ => rfl⟩
  have hrun := ((((Run.start.next h₁).next h₂).next h₃).next h₄).next h₅
  refine ⟨path, s₅, hrun, ?_⟩
  -- No process is at work any more, so the file cannot be there.
  by_contra hthere
  obtain ⟨pid, appId, phase, hproc, -⟩ := lock_released path waiting s₅ _ rfl hrun hthere
  by_cases hseven : pid = 7
  · subst pid
    rw [setProc_procs, if_pos rfl] at hproc
    cases hproc
  · simp only [s₅, s₄, s₃, s₂, s₁, setProc_procs, setFile_procs, if_neg hseven] at hproc
    exact Process.noConfusion (waiting_idle pid _ hproc).1

end Ak24.RuntimeLock
