import Ak24.SourcelocModel

namespace Ak24.SourcelocBooks

open Objects Transition SourcelocModel

inductive Role
  | making
  | adding
  | ending
  | reference
  | uncounted
  deriving DecidableEq, Repr

def phaseRole (f : Nat) : Role → Phase → Nat
  | .making, .new (.build _ g _ _) => if g = f then 1 else 0
  | .adding, .new (.count g _) => if g = f then 1 else 0
  | .ending, .release (.test g refCount) => if g = f ∧ refCount = 0 then 1 else 0
  | .ending, .release (.destroy _ g) => if g = f then 1 else 0
  | .reference, .new (.count g _) => if g = f then 1 else 0
  | .reference, .release (.decrement g) => if g = f then 1 else 0
  | .uncounted, .new (.build _ g _ _) => if g = f then 1 else 0
  | .uncounted, .new (.count g _) => if g = f then 1 else 0
  | .uncounted, .release (.destroy stage g) => if g = f ∧ stage ≠ .uncount then 1 else 0
  | _, _ => 0

def role (f : Nat) (r : Role) (t : Thread) : Nat := (if r = .reference then t.held f else 0) + phaseRole f r t.phase

variable {ι : Type} [Fintype ι]

def among (r : Role) (f : Nat) (threads : ι → Thread) : Nat := tally (role f r) threads

/-- The references to a file, those that calls in progress have included. -/
def references (s : System ι) (f : Nat) : Nat := among .reference f s.threads

def FewReferences (s : System ι) (events : List (Event ι)) : Prop :=
  ∀ f, .retained f ∈ events → references s f + 1 < 2 ^ 32

def Filled (file : SourceFile) (len : Nat) : Prop := file.length = len ∧ file.contents.elim 0 List.length = len + 1

def destroys (f : Nat) : Event ι → Bool
  | .destroyed _ g => g == f
  | _ => false

variable [DecidableEq ι]

/-- Where the file is in its life: being made, discarded or created, then
referenced, being destroyed or destroyed. -/
structure FileOk (trace : List (Event ι)) (shared : Shared) (threads : ι → Thread) (f : Nat) : Prop where
  allotted : trace.count (.created f) + trace.count (.discarded f) + among .making f threads + among .adding f threads =
    if f < shared.files.next then 1 else 0
  settled : trace.count (.created f) + among .adding f threads =
    min 1 (among .reference f threads) + among .ending f threads + trace.countP (destroys f)
  live : (if (shared.files.cells f).isSome then 1 else 0) =
    among .making f threads + min 1 (among .reference f threads) + among .ending f threads
  few : among .reference f threads < 2 ^ 32
  counts : 0 < among .reference f threads →
    (shared.file f).refCount = among .reference f threads ∧ Filled (shared.file f) (shared.file f).length

def PhaseOk (trace : List (Event ι)) (shared : Shared) (i : ι) (t : Thread) : Prop :=
  match t.phase with
  | .new (.build .computeLines f _ contents) => Filled (shared.file f) contents.length
  | .new (.count f len) => Filled (shared.file f) len
  | .retain f => 0 < t.held f
  | .release (.test f refCount) => refCount = 0 → .dropped i f 0 ∈ trace
  | .release (.destroy _ f) => .dropped i f 0 ∈ trace
  | _ => True

structure StatsOk (shared : Shared) (threads : ι → Thread) (counted : Finset Nat) : Prop where
  initialized : shared.g.initialized = true
  mem_counted : ∀ f, f ∈ counted ↔ (shared.files.cells f).isSome ∧ among .uncounted f threads = 0
  fileCount : shared.g.fileCount = counted.card % 2 ^ 64
  totalBytes : shared.g.totalBytes = (∑ f ∈ counted, (shared.file f).length) % 2 ^ 64

structure Books (trace : List (Event ι)) (shared : Shared) (threads : ι → Thread) (counted : Finset Nat) : Prop where
  files : ∀ f, FileOk trace shared threads f
  phases : ∀ i, PhaseOk trace shared i (threads i)
  fits : shared.files.total SourceFile.bytes < 2 ^ 64
  stats : StatsOk shared threads counted
  destroyed : ∀ i f, .destroyed i f ∈ trace → .dropped i f 0 ∈ trace

def Silent (f : Nat) (events : List (Event ι)) : Prop :=
  events.count (.created f) = 0 ∧ events.count (.discarded f) = 0 ∧ events.countP (destroys f) = 0

section Roles

omit [Fintype ι] [DecidableEq ι]

variable {threads : ι → Thread} {i : ι} {p p' : Phase} {f g : Nat}

def phaseFile : Phase → Option Nat
  | .new (.build _ g _ _) | .new (.count g _) | .retain g => some g
  | .release (.decrement g) | .release (.test g _) | .release (.destroy _ g) => some g
  | _ => none

theorem phaseRole_off (hp : phaseFile p = some g ∨ phaseFile p = none) (hf : f ≠ g) (r : Role) :
    phaseRole f r p = 0 := by
  have hne : g ≠ f := hf.symm
  rcases p with _ | (_ | _ | _) | _ | (_ | _ | _) <;> cases r <;> simp_all [phaseFile, phaseRole]

theorem phaseRole_idle (f : Nat) (r : Role) : phaseRole f r .idle = 0 := by
  cases r <;> rfl

theorem role_adding_le (f : Nat) (t : Thread) : role f .adding t ≤ role f .reference t := by
  obtain ⟨held, phase⟩ := t
  rcases phase with _ | (_ | _ | _) | _ | (_ | _ | _) <;> simp [role, phaseRole]

theorem role_goto (f : Nat) (r : Role) (t : Thread) (p : Phase) :
    role f r (t.goto p) = (if r = .reference then t.held f else 0) + phaseRole f r p := rfl

theorem role_same (hi : (threads i).phase = p) (h : ∀ f r, phaseRole f r p' = phaseRole f r p) (f : Nat) (r : Role) :
    role f r ((threads i).goto p') = role f r (threads i) := by
  rw [role_goto, h, role, hi]

theorem role_off (p' : Phase) (hi : (threads i).phase = p) (hp : phaseFile p = some g ∨ phaseFile p = none)
    (hp' : phaseFile p' = some g ∨ phaseFile p' = none) (f : Nat) (hf : f ≠ g) (r : Role) :
    role f r ((threads i).goto p') = role f r (threads i) := by
  rw [role_goto, role, hi, phaseRole_off hp hf, phaseRole_off hp' hf]

theorem role_gain_off (t : Thread) (p : Phase) (f : Nat) (hf : f ≠ g) (r : Role) :
    role f r ((t.gain g).goto p) = role f r (t.goto p) := by
  rw [role_goto, role_goto, Thread.gain]
  simp only [Function.update_of_ne hf]

end Roles

section Threads

variable {threads : ι → Thread} {i : ι} {p : Phase} {g : Nat}

theorem among_update (threads : ι → Thread) (i : ι) (t : Thread) (r : Role) (f : Nat) :
    among r f (Function.update threads i t) + role f r (threads i) = among r f threads + role f r t :=
  tally_update (role f r) threads i t

omit [DecidableEq ι] in
theorem role_le_among (threads : ι → Thread) (i : ι) (r : Role) (f : Nat) : role f r (threads i) ≤ among r f threads :=
  le_tally (role f r) threads i

theorem among_same {t : Thread} {f : Nat} {r : Role} (h : role f r t = role f r (threads i)) :
    among r f (Function.update threads i t) = among r f threads := by
  have hupdate := among_update threads i t r f
  omega

theorem among_goto (hi : (threads i).phase = p) (p' : Phase) (r : Role) (f : Nat) :
    among r f (Function.update threads i ((threads i).goto p')) + phaseRole f r p =
      among r f threads + phaseRole f r p' := by
  have hupdate := among_update threads i ((threads i).goto p') r f
  rw [role_goto, role, hi] at hupdate
  omega

theorem among_gain (hi : (threads i).phase = p) (r : Role) (f : Nat) :
    among r f (Function.update threads i (((threads i).gain g).goto .idle)) + phaseRole f r p =
      among r f threads + if r = .reference ∧ f = g then 1 else 0 := by
  have hupdate := among_update threads i (((threads i).gain g).goto .idle) r f
  rw [role_goto, role, hi, phaseRole_idle] at hupdate
  by_cases hr : r = .reference
  · by_cases hf : f = g
    · subst f
      simp only [hr, Thread.gain, Function.update_self, true_and, if_true] at hupdate ⊢
      omega
    · simp only [hr, Thread.gain, Function.update_of_ne hf, true_and, hf, if_true, if_false] at hupdate ⊢
      omega
  · simp only [hr, false_and, if_false] at hupdate ⊢
    omega

omit [DecidableEq ι] in
theorem among_uncounted_le (f : Nat) (threads : ι → Thread) :
    among .uncounted f threads ≤ among .making f threads + among .adding f threads + among .ending f threads := by
  simp only [among, tally, ← Finset.sum_add_distrib]
  apply Finset.sum_le_sum
  intro i _
  obtain ⟨held, phase⟩ := threads i
  rcases phase with _ | (_ | _ | _) | _ | (_ | _ | _) <;> simp [role, phaseRole]
  split_ifs <;> simp_all

end Threads

section Files

variable {shared : Shared} {f g : Nat} {file old : SourceFile}

theorem file_eq (h : shared.files.cells f = some file) : shared.file f = file := by
  rw [Shared.file, h]
  rfl

theorem write_self (file : SourceFile) (h : shared.files.cells f = some old) : (shared.write f file).file f = file :=
  file_eq (Heap.store_self h)

theorem write_file (h : shared.files.cells f = some old) : shared.write f (shared.file f) = shared := by
  rw [file_eq h, Shared.write, Heap.store_same h]

theorem write_live (h : shared.files.cells f = some old) :
    ((shared.write f file).files.cells g).isSome = (shared.files.cells g).isSome := by
  by_cases hg : g = f
  · subst g
    rw [Shared.write, Heap.store_self h, h]
    rfl
  · rw [Shared.write, Heap.store_of_ne hg]

end Files

section Life

variable {trace events : List (Event ι)} {shared shared' : Shared} {threads threads' : ι → Thread} {f : Nat} {i j : ι}

theorem FileOk.move (h : FileOk trace shared threads f)
    (hallotted : events.count (.created f) + events.count (.discarded f) + among .making f threads' +
      among .adding f threads' + (if f < shared.files.next then 1 else 0) =
        among .making f threads + among .adding f threads + if f < shared'.files.next then 1 else 0)
    (hsettled : events.count (.created f) + among .adding f threads' + min 1 (among .reference f threads) +
      among .ending f threads =
        among .adding f threads + min 1 (among .reference f threads') + among .ending f threads' +
          events.countP (destroys f))
    (hlive : (if (shared'.files.cells f).isSome then 1 else 0) =
      among .making f threads' + min 1 (among .reference f threads') + among .ending f threads')
    (hfew : among .reference f threads' < 2 ^ 32)
    (hcounts : 0 < among .reference f threads' →
      (shared'.file f).refCount = among .reference f threads' ∧ Filled (shared'.file f) (shared'.file f).length) :
    FileOk (trace ++ events) shared' threads' f := by
  refine ⟨?_, ?_, hlive, hfew, hcounts⟩
  · rw [List.count_append, List.count_append]
    have hold := h.allotted
    omega
  · rw [List.count_append, List.countP_append]
    have hold := h.settled
    omega

theorem FileOk.same (h : FileOk trace shared threads f)
    (hroles : ∀ r, r ≠ .uncounted → among r f threads' = among r f threads)
    (hnext : f < shared'.files.next ↔ f < shared.files.next)
    (hlive : (shared'.files.cells f).isSome = (shared.files.cells f).isSome)
    (hfile : 0 < among .reference f threads → shared'.file f = shared.file f) (hevents : Silent f events) :
    FileOk (trace ++ events) shared' threads' f := by
  obtain ⟨hcreated, hdiscarded, hdestroyed⟩ := hevents
  have hlife := h.live
  have hcounts := h.counts
  have hm := hroles .making nofun
  have ha := hroles .adding nofun
  have he := hroles .ending nofun
  have hr := hroles .reference nofun
  apply h.move
  · rw [hcreated, hdiscarded, hm, ha, if_congr hnext rfl rfl]
    omega
  · rw [hcreated, hdestroyed, ha, he, hr]
    omega
  · rwa [hlive, hm, he, hr]
  · rw [hr]
    exact h.few
  · rw [hr]
    intro hpos
    rw [hfile hpos]
    exact hcounts hpos

theorem FileOk.written {file old : SourceFile} (h : FileOk trace shared threads f)
    (hold : shared.files.cells f = some old) (hevents : Silent f events)
    (hmade : among .making f threads' + among .adding f threads' = among .making f threads + among .adding f threads)
    (hsettled : among .adding f threads' + min 1 (among .reference f threads) + among .ending f threads =
      among .adding f threads + min 1 (among .reference f threads') + among .ending f threads')
    (hlive : among .making f threads' + min 1 (among .reference f threads') + among .ending f threads' = 1)
    (hfew : among .reference f threads' < 2 ^ 32)
    (hcounts : 0 < among .reference f threads' →
      file.refCount = among .reference f threads' ∧ Filled file file.length) :
    FileOk (trace ++ events) (shared.write f file) threads' f := by
  obtain ⟨hcreated, hdiscarded, hdestroyed⟩ := hevents
  apply h.move
  · rw [hcreated, hdiscarded]
    change _ = _ + if f < shared.files.next then 1 else 0
    omega
  · rw [hcreated, hdestroyed]
    omega
  · rw [write_live hold, hold, Option.isSome_some, if_pos rfl, hlive]
  · exact hfew
  · rw [write_self _ hold]
    exact hcounts

theorem FileOk.exists_live (h : FileOk trace shared threads f)
    (hrole : 0 < among .making f threads + among .reference f threads + among .ending f threads) :
    ∃ file, shared.files.cells f = some file := by
  rw [← Option.isSome_iff_exists]
  by_contra hdead
  have hlive := h.live
  rw [if_neg hdead] at hlive
  omega

theorem FileOk.alone (h : FileOk trace shared threads f)
    (hi : 0 < role f .making (threads i) + role f .ending (threads i)) :
    (∃ file, shared.files.cells f = some file) ∧ among .reference f threads = 0 ∧
      among .making f threads + among .ending f threads = 1 := by
  have hmaking := role_le_among threads i .making f
  have hending := role_le_among threads i .ending f
  have hlive := h.live
  refine ⟨h.exists_live (by omega), ?_, ?_⟩ <;> split_ifs at hlive <;> omega

theorem FileOk.others_out (h : FileOk trace shared threads f)
    (hi : 0 < role f .making (threads i) + role f .ending (threads i)) (hj : j ≠ i) :
    role f .making (threads j) + role f .adding (threads j) = 0 := by
  obtain ⟨-, hreferences, hone⟩ := h.alone hi
  have hmaking : role f .making (threads i) + role f .making (threads j) ≤ among .making f threads :=
    add_le_tally (role f .making) threads hj.symm
  have hending := role_le_among threads i .ending f
  have hadding := role_adding_le f (threads j)
  have hreference := role_le_among threads j .reference f
  omega

omit [Fintype ι] [DecidableEq ι] in
theorem PhaseOk.mono {t : Thread} (h : PhaseOk trace shared i t)
    (hfilled : ∀ f n, 0 < role f .making t + role f .adding t → Filled (shared.file f) n → Filled (shared'.file f) n) :
    PhaseOk (trace ++ events) shared' i t := by
  unfold PhaseOk at h ⊢
  unfold role at hfilled
  split at h
  · next hphase => exact hfilled _ _ (by simp [hphase, phaseRole]) h
  · next hphase => exact hfilled _ _ (by simp [hphase, phaseRole]) h
  · exact h
  · exact fun hzero => List.mem_append_left _ (h hzero)
  · exact List.mem_append_left _ h
  · trivial

end Life

section Statistics

omit [DecidableEq ι]

variable {shared shared' : Shared} {threads threads' : ι → Thread} {counted : Finset Nat} {f : Nat} {i : ι}

theorem StatsOk.same (h : StatsOk shared threads counted) (hg : shared'.g = shared.g)
    (hcounted : ∀ f, (shared'.files.cells f).isSome ∧ among .uncounted f threads' = 0 ↔
      (shared.files.cells f).isSome ∧ among .uncounted f threads = 0)
    (hlength : ∀ f ∈ counted, (shared'.file f).length = (shared.file f).length) : StatsOk shared' threads' counted := by
  constructor
  · rw [hg]
    exact h.initialized
  · intro f
    rw [hcounted]
    exact h.mem_counted f
  · rw [hg]
    exact h.fileCount
  · rw [hg, Finset.sum_congr rfl hlength]
    exact h.totalBytes

theorem StatsOk.add (h : StatsOk shared threads counted) (hf : f ∉ counted) (hlive : (shared.files.cells f).isSome)
    (hf' : among .uncounted f threads' = 0)
    (hother : ∀ g, g ≠ f → among .uncounted g threads' = among .uncounted g threads) :
    StatsOk { shared with g := shared.g.add (shared.file f).length } threads' (insert f counted) := by
  constructor
  · simp [SourcelocSystem.add, h.initialized]
  · intro g
    by_cases hg : g = f
    · subst g
      simp [hf', hlive]
    · rw [Finset.mem_insert, or_iff_right hg, h.mem_counted, ← hother g hg]
  · simp [SourcelocSystem.add, h.initialized, h.fileCount, Finset.card_insert_of_notMem hf]
  · simp only [SourcelocSystem.add, h.initialized, h.totalBytes, if_true, Finset.sum_insert hf, Shared.file]
    omega

theorem StatsOk.remove (h : StatsOk shared threads counted) (hf : f ∈ counted) (hf' : 0 < among .uncounted f threads')
    (hother : ∀ g, g ≠ f → among .uncounted g threads' = among .uncounted g threads) :
    StatsOk { shared with g := shared.g.remove (shared.file f).length } threads' (counted.erase f) := by
  constructor
  · simp [SourcelocSystem.remove, h.initialized]
  · intro g
    by_cases hg : g = f
    · subst g
      simp [hf'.ne']
    · rw [Finset.mem_erase, and_iff_right hg, h.mem_counted, ← hother g hg]
  · have hcard := Finset.card_erase_add_one hf
    simp only [SourcelocSystem.remove, h.initialized, h.fileCount, if_true]
    omega
  · have hsum := Finset.add_sum_erase counted (fun g => (shared.file g).length) hf
    simp only [SourcelocSystem.remove, h.initialized, h.totalBytes, if_true, Shared.file] at hsum ⊢
    omega

theorem StatsOk.notMem (h : StatsOk shared threads counted) (hi : 0 < role f .uncounted (threads i)) : f ∉ counted := by
  intro hmem
  have hzero := ((h.mem_counted f).mp hmem).2
  have hle := role_le_among threads i .uncounted f
  omega

end Statistics

section Calls

variable {trace events : List (Event ι)} {shared shared' : Shared} {threads : ι → Thread}
  {counted counted' : Finset Nat} {i : ι} {t : Thread} {g : Nat}

theorem Books.call_at (h : Books trace shared threads counted)
    (hroles : ∀ f, f ≠ g → ∀ r, role f r t = role f r (threads i))
    (hcells : ∀ f, f ≠ g → shared'.files.cells f = shared.files.cells f)
    (hnext : ∀ f, f ≠ g → (f < shared'.files.next ↔ f < shared.files.next))
    (hevents : ∀ f, f ≠ g → Silent f events)
    (hdestroyed : ∀ j f, .destroyed j f ∈ events → .dropped j f 0 ∈ trace)
    (hfile : FileOk (trace ++ events) shared' (Function.update threads i t) g)
    (hphase : PhaseOk (trace ++ events) shared' i t)
    (hothers : ∀ j, j ≠ i → 0 < role g .making (threads j) + role g .adding (threads j) →
      ∀ n, Filled (shared.file g) n → Filled (shared'.file g) n)
    (hfits : shared'.files.total SourceFile.bytes < 2 ^ 64)
    (hstats : StatsOk shared' (Function.update threads i t) counted') :
    Books (trace ++ events) shared' (Function.update threads i t) counted' := by
  have hsame : ∀ f, f ≠ g → shared'.file f = shared.file f := by
    intro f hf
    rw [Shared.file, hcells f hf, Shared.file]
  refine ⟨?_, ?_, hfits, hstats, ?_⟩
  · intro f
    by_cases hf : f = g
    · subst f
      exact hfile
    · exact (h.files f).same (fun r _ => among_same (hroles f hf r)) (hnext f hf) (congrArg Option.isSome (hcells f hf))
        (fun _ => hsame f hf) (hevents f hf)
  · intro j
    by_cases hj : j = i
    · subst j
      simpa only [Function.update_self] using hphase
    · simp only [Function.update_of_ne hj]
      apply (h.phases j).mono
      intro f n hrole hfilled
      by_cases hf : f = g
      · subst f
        exact hothers j hj hrole n hfilled
      · rwa [hsame f hf]
  · intro j f hmem
    apply List.mem_append_left
    rcases List.mem_append.mp hmem with hold | hnew
    · exact h.destroyed j f hold
    · exact hdestroyed j f hnew

omit [Fintype ι] in
theorem silent_used (f : Nat) : Silent (ι := ι) f [.used g] := by
  simp [Silent, destroys]

theorem Books.write_at (h : Books trace shared threads counted) (size : Nat) {file old : SourceFile}
    (hold : shared.files.cells g = some old)
    (hroles : ∀ f, f ≠ g → ∀ r, role f r t = role f r (threads i))
    (huncounted : role g .uncounted t = role g .uncounted (threads i))
    (hevents : ∀ f, f ≠ g → Silent f events) (hdestroyed : ∀ j f, .destroyed j f ∉ events)
    (hfile : FileOk (trace ++ events) (shared.write g file) (Function.update threads i t) g)
    (hphase : PhaseOk (trace ++ events) (shared.write g file) i t)
    (hothers : ∀ j, j ≠ i → 0 < role g .making (threads j) + role g .adding (threads j) →
      ∀ n, Filled old n → Filled file n)
    (hlength : g ∈ counted → file.length = old.length) (hbytes : file.bytes ≤ old.bytes + size)
    (hsize : shared.files.total SourceFile.bytes + size < 2 ^ 64) :
    Books (trace ++ events) (shared.write g file) (Function.update threads i t) counted := by
  refine h.call_at hroles (fun f hf => Heap.store_of_ne hf) (fun f _ => Iff.rfl) hevents
    (fun j f hmem => absurd hmem (hdestroyed j f)) hfile hphase ?_ ?_ ?_
  · rw [write_self _ hold, file_eq hold]
    exact hothers
  · have htotal := Heap.total_store (w := SourceFile.bytes) (a := file) hold
    change (shared.files.store g file).total _ < _
    omega
  · refine h.stats.same rfl (fun f => ?_) (fun f hf => ?_)
    · by_cases hfg : f = g
      · rw [hfg, write_live hold, among_same huncounted]
      · rw [write_live hold, among_same (hroles f hfg .uncounted)]
    · by_cases hfg : f = g
      · subst f
        rw [write_self _ hold, file_eq hold]
        exact hlength hf
      · rw [Shared.file, Shared.write, Heap.store_of_ne hfg, Shared.file]

theorem Books.write_alone (h : Books trace shared threads counted) (size : Nat) {file : SourceFile}
    (hroles : ∀ f r, role f r t = role f r (threads i))
    (hi : 0 < role g .making (threads i) + role g .ending (threads i)) (huncounted : 0 < role g .uncounted (threads i))
    (hbytes : file.bytes ≤ (shared.file g).bytes + size)
    (hsize : shared.files.total SourceFile.bytes + size < 2 ^ 64)
    (hphase : PhaseOk (trace ++ [Event.used g]) (shared.write g file) i t) :
    Books (trace ++ [Event.used g]) (shared.write g file) (Function.update threads i t) counted := by
  obtain ⟨⟨old, hold⟩, hnone, -⟩ := (h.files g).alone hi
  refine h.write_at _ hold (fun f _ => hroles f) (hroles g _) (fun f _ => silent_used f) (by simp) ?_ hphase ?_ ?_
    (file_eq hold ▸ hbytes) hsize
  · exact (h.files g).same (fun r _ => among_same (hroles g r)) Iff.rfl (write_live hold) (fun hpos => by omega)
      (silent_used g)
  · intro j hj hrole
    have hout := (h.files g).others_out hi hj
    omega
  · exact fun hmem => absurd hmem (h.stats.notMem huncounted)

theorem Books.free_alone (h : Books trace shared threads counted) {p : Phase} {e : Event ι} (hi : (threads i).phase = p)
    (hp : phaseFile p = some g) (halone : phaseRole g .making p + phaseRole g .ending p = 1)
    (hreference : phaseRole g .reference p = 0) (hadding : phaseRole g .adding p = 0)
    (huncounted : phaseRole g .uncounted p = 1) (hcreated : [e].count (.created g) = 0)
    (hdiscarded : [e].count (.discarded g) = phaseRole g .making p)
    (hdestroyed : [e].countP (destroys g) = phaseRole g .ending p) (hevents : ∀ f, f ≠ g → Silent f [e])
    (hdropped : ∀ j f, .destroyed j f ∈ [e] → .dropped j f 0 ∈ trace) :
    Books (trace ++ [e]) { shared with files := shared.files.free g }
      (Function.update threads i ((threads i).goto .idle)) counted := by
  have hmine : 0 < role g .making (threads i) + role g .ending (threads i) := by
    simp only [role, hi, reduceCtorEq, if_false]
    omega
  have hmine' : 0 < role g .uncounted (threads i) := by
    simp [role, hi, huncounted]
  obtain ⟨⟨old, hold⟩, hnone, hone⟩ := (h.files g).alone hmine
  have hoff := role_off .idle hi (.inl hp) (.inr rfl)
  have hm := among_goto hi .idle .making g
  have ha := among_goto hi .idle .adding g
  have he := among_goto hi .idle .ending g
  have hr := among_goto hi .idle .reference g
  simp only [phaseRole_idle] at hm ha he hr
  refine h.call_at hoff (fun f hf => Heap.free_of_ne hf) (fun f _ => Iff.rfl) hevents hdropped ?_ trivial ?_ ?_ ?_
  · apply (h.files g).move
    · rw [hcreated, hdiscarded]
      change _ = _ + if g < shared.files.next then 1 else 0
      omega
    · rw [hcreated, hdestroyed]
      omega
    · simp only [Heap.free_self, Option.isSome_none, Bool.false_eq_true, if_false]
      omega
    · omega
    · omega
  · intro j hj hrole
    have hout := (h.files g).others_out hmine hj
    omega
  · have htotal := Heap.total_free (w := SourceFile.bytes) hold
    have hfits := h.fits
    dsimp only
    omega
  · refine h.stats.same rfl (fun f => ?_) (fun f hf => ?_)
    · by_cases hfg : f = g
      · subst f
        have hle := role_le_among threads i .uncounted g
        simp only [Heap.free_self]
        constructor
        · rintro ⟨hsome, -⟩
          cases hsome
        · rintro ⟨-, hzero⟩
          omega
      · rw [Heap.free_of_ne hfg, among_same (hoff f hfg _)]
    · have hfg : f ≠ g := fun heq => h.stats.notMem hmine' (heq ▸ hf)
      rw [Shared.file, Heap.free_of_ne hfg, Shared.file]

section New

variable {filename : String} {contents : List UInt8} {stage : Building}

theorem Books.alloc (h : Books trace shared threads counted) (hi : (threads i).phase = .new (.alloc filename contents))
    (hserves : shared.files.total SourceFile.bytes + structBytes < 2 ^ 64) :
    Books (trace ++ []) { shared with files := shared.files.alloc .fresh }
      (Function.update threads i
        ((threads i).goto (.new (.build .initLock shared.files.next filename contents)))) counted := by
  have hoff := role_off (.new (.build .initLock shared.files.next filename contents)) hi (.inr rfl) (.inl rfl)
  have hroles := among_goto hi (.new (.build .initLock shared.files.next filename contents))
  have hm := hroles .making shared.files.next
  have ha := hroles .adding shared.files.next
  have he := hroles .ending shared.files.next
  have hr := hroles .reference shared.files.next
  simp only [phaseRole, if_true] at hm ha he hr
  have hallotted := (h.files shared.files.next).allotted
  have hlive := (h.files shared.files.next).live
  rw [if_neg (lt_irrefl _)] at hallotted
  simp only [shared.files.fresh _ le_rfl, Option.isSome_none, Bool.false_eq_true, if_false] at hlive
  refine h.call_at hoff (fun f hf => Heap.alloc_of_ne hf) (fun f hf => ?_) (fun f _ => ⟨rfl, rfl, rfl⟩) (by simp) ?_
    trivial ?_ ?_ ?_
  · simp only [Heap.alloc_next]
    omega
  · apply (h.files shared.files.next).move
    · simp only [List.count_nil, Heap.alloc_next, lt_irrefl, Nat.lt_succ_self, if_true, if_false]
      omega
    · simp only [List.count_nil, List.countP_nil]
      omega
    · simp only [Heap.alloc_self, Option.isSome_some, if_true]
      omega
    · omega
    · omega
  · intro j hj hrole
    have hmaking := role_le_among threads j .making shared.files.next
    have hadding := role_le_among threads j .adding shared.files.next
    omega
  · simp only [Heap.total_alloc]
    exact hserves
  · refine h.stats.same rfl (fun f => ?_) (fun f hf => ?_)
    · by_cases hf : f = shared.files.next
      · subst f
        have hu := hroles .uncounted shared.files.next
        simp only [phaseRole, if_true] at hu
        simp [shared.files.fresh _ le_rfl]
        omega
      · rw [Heap.alloc_of_ne hf, among_same (hoff f hf _)]
    · have hf' := ((h.stats.mem_counted f).mp hf).1
      obtain ⟨file, hfile⟩ := Option.isSome_iff_exists.mp hf'
      rw [Shared.file, Heap.alloc_of_ne (shared.files.lt_next hfile).ne, Shared.file]

theorem Books.build_write (h : Books trace shared threads counted) (size : Nat) (stage' : Building)
    (hi : (threads i).phase = .new (.build stage g filename contents)) {file : SourceFile}
    (hbytes : file.bytes ≤ (shared.file g).bytes + size)
    (hsize : shared.files.total SourceFile.bytes + size < 2 ^ 64)
    (hfilled : stage' = .computeLines → Filled file contents.length) :
    Books (trace ++ [Event.used g]) (shared.write g file)
      (Function.update threads i ((threads i).goto (.new (.build stage' g filename contents)))) counted := by
  have hmine : 0 < role g .making (threads i) + role g .ending (threads i) := by
    simp [role, phaseRole, hi]
  obtain ⟨⟨old, hold⟩, -⟩ := (h.files g).alone hmine
  refine h.write_alone _ (role_same hi fun f r => ?_) hmine (by simp [role, phaseRole, hi]) hbytes hsize ?_
  · cases r <;> rfl
  · cases stage' with
    | computeLines =>
        change Filled _ _
        rw [write_self _ hold]
        exact hfilled rfl
    | _ => trivial

theorem Books.build_count (h : Books trace shared threads counted)
    (hi : (threads i).phase = .new (.build stage g filename contents)) {file : SourceFile} {size : Nat}
    (hbytes : file.bytes ≤ (shared.file g).bytes + size)
    (hsize : shared.files.total SourceFile.bytes + size < 2 ^ 64) (hcount : file.refCount = 1)
    (hfilled : Filled file contents.length) :
    Books (trace ++ [Event.used g]) (shared.write g file)
      (Function.update threads i ((threads i).goto (.new (.count g contents.length)))) counted := by
  have hmine : 0 < role g .making (threads i) + role g .ending (threads i) := by
    simp [role, phaseRole, hi]
  have hmine' : 0 < role g .uncounted (threads i) := by
    simp [role, phaseRole, hi]
  obtain ⟨⟨old, hold⟩, hnone, hone⟩ := (h.files g).alone hmine
  have hstored : (shared.write g file).file g = file := write_self _ hold
  have hroles := among_goto hi (.new (.count g contents.length))
  have hm := hroles .making g
  have ha := hroles .adding g
  have he := hroles .ending g
  have hr := hroles .reference g
  simp only [phaseRole, if_true] at hm ha he hr
  refine h.write_at _ hold (role_off _ hi (.inl rfl) (.inl rfl)) ?_ (fun f _ => silent_used f) (by simp) ?_ ?_ ?_ ?_
    (file_eq hold ▸ hbytes) hsize
  · rw [role_goto, role, hi]
    rfl
  · apply (h.files g).written hold (silent_used g)
    · omega
    · omega
    · omega
    · omega
    · exact fun hpos => ⟨by omega, rfl, hfilled.1 ▸ hfilled.2⟩
  · change Filled _ _
    rw [hstored]
    exact hfilled
  · intro j hj hrole
    have hout := (h.files g).others_out hmine hj
    omega
  · exact fun hmem => absurd hmem (h.stats.notMem hmine')

theorem Books.count (h : Books trace shared threads counted) {len : Nat}
    (hi : (threads i).phase = .new (.count g len)) :
    Books (trace ++ [Event.created g]) { shared with g := shared.g.add len }
      (Function.update threads i (((threads i).gain g).goto .idle)) (insert g counted) := by
  have hphase := h.phases i
  simp only [PhaseOk, hi] at hphase
  obtain ⟨rfl, -⟩ := hphase
  have hoff : ∀ f, f ≠ g → ∀ r, role f r (((threads i).gain g).goto .idle) = role f r (threads i) := by
    intro f hf r
    rw [role_gain_off _ _ f hf, role_off _ hi (.inl rfl) (.inr rfl) f hf]
  have hm := among_gain (g := g) hi .making g
  have ha := among_gain (g := g) hi .adding g
  have he := among_gain (g := g) hi .ending g
  have hr := among_gain (g := g) hi .reference g
  have hu := among_gain (g := g) hi .uncounted g
  have hmine := role_le_among threads i .reference g
  simp only [role, hi, phaseRole, if_true, reduceCtorEq, if_false, and_true] at hm ha he hr hu hmine
  have hlife := h.files g
  obtain ⟨file, hfile⟩ := hlife.exists_live (by omega)
  have hlive := hlife.live
  have hallotted := hlife.allotted
  have hle := among_uncounted_le g threads
  have hone : among .uncounted g threads ≤ 1 := by
    split_ifs at hlive hallotted <;> omega
  refine h.call_at hoff (fun f hf => rfl) (fun f hf => Iff.rfl) (fun f hf => ?_) (by simp) ?_ trivial
    (fun _ _ _ _ hfilled => hfilled) h.fits ?_
  · simp [Silent, destroys, Ne.symm hf]
  · apply hlife.move
    · simp only [List.count_singleton_self, List.count_singleton, beq_iff_eq, reduceCtorEq, if_false]
      omega
    · simp only [List.count_singleton_self, List.countP_singleton, destroys, Bool.false_eq_true, if_false]
      omega
    · dsimp only
      omega
    · have hfew := hlife.few
      omega
    · intro hpos
      have hcounts := hlife.counts (by omega)
      exact ⟨hcounts.1.trans (by omega), hcounts.2⟩
  · apply h.stats.add
    · exact h.stats.notMem (i := i) (by simp [role, phaseRole, hi])
    · rw [hfile]
      rfl
    · omega
    · exact fun f hf => among_same (hoff f hf _)

end New

theorem Books.retain (h : Books trace shared threads counted) (hi : (threads i).phase = .retain g)
    (hfew : among .reference g threads + 1 < 2 ^ 32) :
    Books (trace ++ [Event.used g, Event.retained g])
      (shared.write g { shared.file g with refCount := ((shared.file g).refCount + 1) % 2 ^ 32 })
      (Function.update threads i (((threads i).gain g).goto .idle)) counted := by
  have hheld := h.phases i
  simp only [PhaseOk, hi] at hheld
  have hmine := role_le_among threads i .reference g
  simp only [role, hi, phaseRole, if_true] at hmine
  have hlife := h.files g
  have hcounts := hlife.counts (by omega)
  obtain ⟨old, hold⟩ := hlife.exists_live (by omega)
  rw [file_eq hold] at hcounts ⊢
  have hm := among_gain (g := g) hi .making g
  have ha := among_gain (g := g) hi .adding g
  have he := among_gain (g := g) hi .ending g
  have hr := among_gain (g := g) hi .reference g
  simp only [phaseRole, reduceCtorEq, if_false, and_true, if_true] at hm ha he hr
  have hlive := hlife.live
  simp only [hold, Option.isSome_some, if_true] at hlive
  have hsilent : ∀ f, Silent (ι := ι) f [.used g, .retained g] := by
    intro f
    simp [Silent, destroys]
  refine h.write_at 0 hold (fun f hf r => ?_) ?_ (fun f _ => hsilent f) (by simp) ?_ trivial
    (fun _ _ _ _ hfilled => hfilled) (fun _ => rfl) le_rfl h.fits
  · rw [role_gain_off _ _ f hf, role_off _ hi (.inl rfl) (.inr rfl) f hf]
  · rw [role_goto, role, hi]
    rfl
  · apply hlife.written hold (hsilent g)
    · omega
    · omega
    · omega
    · omega
    · intro hpos
      refine ⟨?_, hcounts.2⟩
      dsimp only
      omega

section Release

theorem Books.decrement (h : Books trace shared threads counted) {refCount : Nat}
    (hi : (threads i).phase = .release (.decrement g))
    (hcount : refCount = ((shared.file g).refCount + (2 ^ 32 - 1)) % 2 ^ 32) :
    Books (trace ++ [Event.used g, Event.dropped i g refCount]) (shared.write g { shared.file g with refCount })
        (Function.update threads i ((threads i).goto (.release (.test g refCount)))) counted ∧
      among .reference g (Function.update threads i ((threads i).goto (.release (.test g refCount)))) = refCount := by
  have hmine := role_le_among threads i .reference g
  simp only [role, hi, phaseRole, if_true] at hmine
  have hlife := h.files g
  have hcounts := hlife.counts (by omega)
  have hfew := hlife.few
  obtain ⟨old, hold⟩ := hlife.exists_live (by omega)
  rw [file_eq hold] at hcounts hcount ⊢
  have hroles := among_goto hi (.release (.test g refCount))
  have hm := hroles .making g
  have ha := hroles .adding g
  have he := hroles .ending g
  have hr := hroles .reference g
  simp only [phaseRole, true_and, if_true] at hm ha he hr
  have hlive := hlife.live
  simp only [hold, Option.isSome_some, if_true] at hlive
  have hsilent : ∀ f, Silent (ι := ι) f [.used g, .dropped i g refCount] := by
    intro f
    simp [Silent, destroys]
  refine ⟨?_, by omega⟩
  refine h.write_at 0 hold (role_off _ hi (.inl rfl) (.inl rfl)) ?_ (fun f _ => hsilent f) (by simp) ?_ ?_
    (fun _ _ _ _ hfilled => hfilled) (fun _ => rfl) le_rfl h.fits
  · rw [role_goto, role, hi]
    rfl
  · apply hlife.written hold (hsilent g)
    · omega
    · split_ifs at he <;> omega
    · split_ifs at he <;> omega
    · omega
    · intro hpos
      refine ⟨?_, hcounts.2⟩
      dsimp only
      omega
  · intro hzero
    simp [hzero]

theorem Books.uncount (h : Books trace shared threads counted)
    (hi : (threads i).phase = .release (.destroy .uncount g)) :
    Books (trace ++ [Event.used g]) { shared with g := shared.g.remove (shared.file g).length }
      (Function.update threads i ((threads i).goto (.release (.destroy .freeLines g)))) (counted.erase g) := by
  have hmine : 0 < role g .making (threads i) + role g .ending (threads i) := by
    simp [role, phaseRole, hi]
  have hlife := h.files g
  obtain ⟨⟨old, hold⟩, hnone, hone⟩ := hlife.alone hmine
  have hoff := role_off (.release (.destroy .freeLines g)) hi (.inl rfl) (.inl rfl)
  have hroles := among_goto hi (.release (.destroy .freeLines g))
  have hu := hroles .uncounted g
  simp only [phaseRole, ne_eq, not_true_eq_false, and_false, if_false, reduceCtorEq, not_false_eq_true, and_true,
    if_true] at hu
  have hrest := among_uncounted_le g (Function.update threads i ((threads i).goto .idle))
  have hm₀ := among_goto hi .idle .making g
  have ha₀ := among_goto hi .idle .adding g
  have he₀ := among_goto hi .idle .ending g
  have hu₀ := among_goto hi .idle .uncounted g
  simp only [phaseRole, ne_eq, not_true_eq_false, and_false, if_false, if_true] at hm₀ ha₀ he₀ hu₀
  have hadding : among .adding g threads ≤ among .reference g threads := tally_mono (role_adding_le g) threads
  have hlive := hlife.live
  simp only [hold, Option.isSome_some, if_true] at hlive
  refine h.call_at hoff (fun f hf => rfl) (fun f hf => Iff.rfl) (fun f _ => silent_used f) (by simp) ?_ ?_
    (fun _ _ _ _ hfilled => hfilled) h.fits ?_
  · refine hlife.same (fun r hr => among_same ?_) Iff.rfl rfl (fun _ => rfl) (silent_used g)
    rw [role_goto, role, hi]
    cases r with
    | uncounted => cases hr rfl
    | _ => rfl
  · have hdropped := h.phases i
    simp only [PhaseOk, hi] at hdropped
    exact List.mem_append_left _ hdropped
  · apply h.stats.remove
    · rw [h.stats.mem_counted, hold]
      exact ⟨rfl, by omega⟩
    · omega
    · exact fun f hf => among_same (hoff f hf _)

theorem Books.destroy_write (h : Books trace shared threads counted) {stage stage' : Destroying} {file : SourceFile}
    (hi : (threads i).phase = .release (.destroy stage g)) (hstage : stage ≠ .uncount) (hstage' : stage' ≠ .uncount)
    (hbytes : file.bytes ≤ (shared.file g).bytes) :
    Books (trace ++ [Event.used g]) (shared.write g file)
      (Function.update threads i ((threads i).goto (.release (.destroy stage' g)))) counted := by
  refine h.write_alone 0 (role_same hi fun f r => ?_) (by simp [role, phaseRole, hi])
    (by simp [role, phaseRole, hi, hstage]) hbytes h.fits ?_
  · cases r <;> simp [phaseRole, hstage, hstage']
  · have hdropped := h.phases i
    simp only [PhaseOk, hi] at hdropped
    exact List.mem_append_left _ hdropped

end Release

theorem Books.quiet {threads' : ι → Thread} (h : Books trace shared threads counted)
    (hroles : ∀ r f, among r f threads' = among r f threads) (hphases : ∀ i, PhaseOk trace shared i (threads' i)) :
    Books (trace ++ []) shared threads' counted := by
  refine ⟨fun f => ?_, ?_, h.fits, ?_, ?_⟩
  · exact (h.files f).same (fun r _ => hroles r f) Iff.rfl rfl (fun _ => rfl) ⟨rfl, rfl, rfl⟩
  · rw [List.append_nil]
    exact hphases
  · exact h.stats.same rfl (fun f => by rw [hroles]) (fun _ _ => rfl)
  · rw [List.append_nil]
    exact h.destroyed

omit [Fintype ι] in
theorem phases_update (h : ∀ j, PhaseOk trace shared j (threads j)) (hi : PhaseOk trace shared i t) (j : ι) :
    PhaseOk trace shared j (Function.update threads i t j) := by
  by_cases hj : j = i
  · subst j
    rwa [Function.update_self]
  · rw [Function.update_of_ne hj]
    exact h j

theorem Books.pass (h : Books trace shared threads counted) {p p' : Phase} (hi : (threads i).phase = p)
    (hroles : ∀ f r, phaseRole f r p' = phaseRole f r p) (hphase : PhaseOk trace shared i ((threads i).goto p')) :
    Books (trace ++ []) shared (Function.update threads i ((threads i).goto p')) counted :=
  h.quiet (fun r f => among_same (role_same hi hroles f r)) (phases_update h.phases hphase)

theorem serves_iff {granted : Bool} {size : Nat} :
    shared.serves granted size ↔ granted ∧ shared.files.total SourceFile.bytes + size < 2 ^ 64 := by
  rw [Shared.serves, Bool.and_eq_true, decide_eq_true_iff]

theorem Books.build (h : Books trace shared threads counted) {stage : Building} {f : Nat} {filename : String}
    {contents : List UInt8} {granted : Bool} (hi : (threads i).phase = .new (.build stage f filename contents))
    (hcall : akSourceFileNew shared (threads i) granted (.build stage f filename contents) = (shared', t, events)) :
    ∃ counted', Books (trace ++ events) shared' (Function.update threads i t) counted' := by
  obtain ⟨⟨old, hold⟩, -⟩ := (h.files f).alone (i := i) (by simp [role, phaseRole, hi])
  cases stage with
  | initLock =>
      rw [akSourceFileNew] at hcall
      split_ifs at hcall
      · cases hcall
        exact ⟨counted, h.build_write 0 .internName hi le_rfl h.fits nofun⟩
      · cases hcall
        have hsame : Books _ (shared.write f (shared.file f)) _ _ :=
          h.build_write 0 .freeFile hi le_rfl h.fits nofun
        rw [write_file hold] at hsame
        exact ⟨counted, hsame⟩
  | internName =>
      rw [akSourceFileNew] at hcall
      split_ifs at hcall
      · cases hcall
        exact ⟨counted, h.build_write 0 .allocContents hi le_rfl h.fits nofun⟩
      · cases hcall
        exact ⟨counted, h.build_write 0 .destroyLock hi le_rfl h.fits nofun⟩
  | allocContents =>
      rw [akSourceFileNew] at hcall
      split_ifs at hcall with hserves
      · cases hcall
        refine ⟨counted, h.build_write _ .computeLines hi ?_ (serves_iff.mp hserves).2 fun _ => ?_⟩
        · simp only [SourceFile.bytes, Option.elim_some, List.length_append, List.length_singleton]
          omega
        · exact ⟨rfl, by simp⟩
      · cases hcall
        exact ⟨counted, h.build_write 0 .destroyLock hi (by simp [SourceFile.bytes]) h.fits nofun⟩
  | computeLines =>
      have hphase := h.phases i
      simp only [PhaseOk, hi] at hphase
      rw [akSourceFileNew, computeLineStarts] at hcall
      cases hserves : shared.serves granted (4 * (shared.file f).countLines) with
      | false =>
          simp only [hserves, Bool.not_false, if_true] at hcall
          cases hcall
          exact ⟨counted, h.build_write 0 .freeContents hi (by simp [SourceFile.bytes]) h.fits nofun⟩
      | true =>
          simp only [hserves, Bool.not_true, Bool.false_eq_true, if_false] at hcall
          cases hcall
          refine ⟨counted, h.build_count hi ?_ (serves_iff.mp hserves).2 rfl hphase⟩
          simp only [SourceFile.bytes, Option.elim_some]
          omega
  | freeContents =>
      cases hcall
      exact ⟨counted, h.build_write 0 .destroyLock hi (by simp [SourceFile.bytes]) h.fits nofun⟩
  | destroyLock =>
      cases hcall
      exact ⟨counted, h.build_write 0 .freeFile hi le_rfl h.fits nofun⟩
  | freeFile =>
      cases hcall
      exact ⟨counted, h.free_alone hi rfl (by simp [phaseRole]) rfl rfl (by simp [phaseRole]) (by simp)
        (by simp [phaseRole]) (by simp [destroys, phaseRole])
        (fun g hg => by simp [Silent, destroys, Ne.symm hg]) (by simp)⟩

theorem Books.new (h : Books trace shared threads counted) {p : NewPhase} {granted : Bool}
    (hi : (threads i).phase = .new p) (hcall : akSourceFileNew shared (threads i) granted p = (shared', t, events)) :
    ∃ counted', Books (trace ++ events) shared' (Function.update threads i t) counted' := by
  cases p with
  | alloc filename contents =>
      rw [akSourceFileNew] at hcall
      split_ifs at hcall with hserves
      · cases hcall
        exact ⟨counted, h.alloc hi (serves_iff.mp hserves).2⟩
      · cases hcall
        exact ⟨counted, h.pass hi (fun f r => by cases r <;> rfl) trivial⟩
  | build stage f filename contents => exact h.build hi hcall
  | count f len =>
      cases hcall
      exact ⟨insert f counted, h.count hi⟩

theorem Books.release (h : Books trace shared threads counted) {p : ReleasePhase}
    (hi : (threads i).phase = .release p) (hcall : akSourceFileRelease shared (threads i) i p = (shared', t, events)) :
    ∃ counted', Books (trace ++ events) shared' (Function.update threads i t) counted' := by
  cases p with
  | decrement f =>
      cases hcall
      exact ⟨counted, (h.decrement hi rfl).1⟩
  | test f refCount =>
      cases hcall
      have hdropped := h.phases i
      simp only [PhaseOk, hi] at hdropped
      split_ifs with hzero
      · exact ⟨counted, h.pass hi (fun f r => by cases r <;> simp [phaseRole, hzero]) (hdropped hzero)⟩
      · exact ⟨counted, h.pass hi (fun f r => by cases r <;> simp [phaseRole, hzero]) trivial⟩
  | destroy stage f =>
      cases stage with
      | uncount =>
          cases hcall
          exact ⟨counted.erase f, h.uncount hi⟩
      | freeLines | freeContents | destroyLock =>
          cases hcall
          exact ⟨counted, h.destroy_write hi nofun nofun (by simp [SourceFile.bytes])⟩
      | freeFile =>
          cases hcall
          have hdropped := h.phases i
          simp only [PhaseOk, hi] at hdropped
          refine ⟨counted, h.free_alone hi rfl (by simp [phaseRole]) rfl rfl (by simp [phaseRole]) (by simp)
            (by simp [phaseRole]) (by simp [destroys, phaseRole])
            (fun g hg => by simp [Silent, destroys, Ne.symm hg]) ?_⟩
          intro j g hmem
          cases List.mem_singleton.mp hmem
          exact hdropped

end Calls

section Runs

variable {trace events : List (Event ι)} {s s' : System ι} {counted : Finset Nat}

omit [Fintype ι] [DecidableEq ι] in
theorem role_lose {t : Thread} {g : Nat} (hidle : t.phase = .idle) (hheld : 0 < t.held g) (f : Nat) (r : Role) :
    role f r ((t.lose g).goto (.release (.decrement g))) = role f r t := by
  rw [role_goto, role, hidle]
  by_cases hf : f = g
  · subst f
    cases r <;> simp [phaseRole, Thread.lose]
    omega
  · cases r <;> simp [phaseRole, Thread.lose, hf, Ne.symm hf]

theorem among_handOver {threads : ι → Thread} {i j : ι} {g : Nat} (hij : i ≠ j) (hheld : 0 < (threads i).held g)
    (r : Role) (f : Nat) :
    among r f (Function.update (Function.update threads i ((threads i).lose g)) j ((threads j).gain g)) =
      among r f threads := by
  have hgain := among_update (Function.update threads i ((threads i).lose g)) j ((threads j).gain g) r f
  have hlose := among_update threads i ((threads i).lose g) r f
  rw [Function.update_of_ne hij.symm] at hgain
  by_cases hr : r = .reference
  · by_cases hf : f = g
    · subst f
      simp only [role, hr, Thread.gain, Thread.lose, Function.update_self, if_true] at hgain hlose ⊢
      omega
    · simp only [role, hr, Thread.gain, Thread.lose, Function.update_of_ne hf, if_true] at hgain hlose ⊢
      omega
  · simp only [role, hr, Thread.gain, Thread.lose, if_false] at hgain hlose ⊢
    omega

theorem Books.step (h : Books trace s.shared s.threads counted) (hs : guarded FewReferences Step s events s') :
    ∃ counted', Books (trace ++ events) s'.shared s'.threads counted' := by
  obtain ⟨hstep, hfew⟩ := hs
  cases hstep with
  | beginNew i filename contents hidle =>
      exact ⟨counted, h.pass hidle (fun f r => by cases r <;> rfl) trivial⟩
  | beginRetain i f hidle hheld => exact ⟨counted, h.pass hidle (fun f r => by cases r <;> rfl) hheld⟩
  | beginRelease i f hidle hheld =>
      exact ⟨counted, h.quiet (fun r f => among_same (role_lose hidle hheld f r)) (phases_update h.phases trivial)⟩
  | handOver i j f hij hidle hheld =>
      refine ⟨counted, h.quiet (among_handOver hij hheld) (phases_update (phases_update h.phases ?_) ?_)⟩
      · simp only [PhaseOk, Thread.lose, hidle]
      · have hj := h.phases j
        unfold PhaseOk at hj ⊢
        simp only [Thread.gain]
        split at hj
        · exact hj
        · exact hj
        · next g hphase =>
            by_cases hg : g = f
            · subst g
              simp
            · simpa [hg] using hj
        · exact hj
        · exact hj
        · trivial
  | call i granted shared t _ hcall =>
      unfold call at hcall
      cases hi : (s.threads i).phase with
      | idle =>
          rw [hi] at hcall
          cases hcall
      | new p =>
          rw [hi] at hcall
          exact h.new hi (Option.some.inj hcall)
      | retain f =>
          rw [hi] at hcall
          cases hcall
          exact ⟨counted, h.retain hi (hfew f (by simp))⟩
      | release p =>
          rw [hi] at hcall
          exact h.release hi (Option.some.inj hcall)

theorem books_start : Books [] (System.start ι).shared (System.start ι).threads ∅ := by
  have hzero : ∀ r f, among r f (System.start ι).threads = 0 := by
    intro r f
    apply tally_eq_zero
    intro i
    rw [role]
    cases r <;> rfl
  refine ⟨fun f => ⟨?_, ?_, ?_, ?_, ?_⟩, fun i => trivial, ?_, ⟨rfl, ?_, rfl, rfl⟩, nofun⟩
  · rw [hzero, hzero]
    rfl
  · rw [hzero, hzero, hzero]
    rfl
  · rw [hzero, hzero, hzero]
    rfl
  · rw [hzero]
    decide
  · rw [hzero]
    nofun
  · exact Nat.two_pow_pos 64
  · intro f
    simp [System.start]

theorem run_books (hrun : Run (guarded FewReferences Step) (System.start ι) trace s) :
    ∃ counted, Books trace s.shared s.threads counted := by
  apply hrun.invariant (P := fun trace s => ∃ counted, Books trace s.shared s.threads counted)
  · exact ⟨∅, books_start⟩
  · exact fun _ _ _ _ ⟨_, h⟩ hs => h.step hs

end Runs

end Ak24.SourcelocBooks
