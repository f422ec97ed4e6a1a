import Ak24.ThreadPoolSafety

namespace Ak24.ThreadPoolWakeup

open ThreadPoolModel ThreadPoolSafety Transition

/-- The pool with its condition variables: the workers blocked on
`work_available` and the callers of `ak_thread_pool_wait` blocked on
`work_complete` that nothing has notified yet. A notified thread has left its
set and stands before the mutex. -/
structure Monitor (n : Nat) where
  sys : System n
  workAvailable : Finset (Fin n)
  waiting : Finset Nat
  workComplete : Finset Nat

def workerBlocks (pool : ThreadPool) (p : WorkerPhase) : Bool :=
  p = .loop ∧ pool.state = .running ∧ pool.queueSize = 0

def workerBroadcasts (p : WorkerPhase) (pool : ThreadPool) : Bool :=
  p = .finish ∧ pool.queueSize = 0 ∧ pool.activeCount = 0

def waitBlocks (pool : ThreadPool) : Bool :=
  0 < pool.queueSize ∨ 0 < pool.activeCount

variable {n : Nat}

def Monitor.worker (s : Monitor n) (i : Fin n) (p : WorkerPhase) (pool : ThreadPool) : Monitor n :=
  { s with
    sys := { s.sys with pool, workers := Function.update s.sys.workers i p }
    workAvailable := if workerBlocks s.sys.pool (s.sys.workers i) then insert i s.workAvailable else s.workAvailable
    workComplete := if workerBroadcasts (s.sys.workers i) pool then ∅ else s.workComplete }

def Monitor.wait (s : Monitor n) (caller : Nat) : Monitor n × List Event :=
  if waitBlocks s.sys.pool then ({ s with workComplete := insert caller s.workComplete }, [])
  else ({ s with waiting := s.waiting.erase caller }, [.waited])

def Monitor.free (s : Monitor n) (f : FreePhase) (pool : ThreadPool) : Monitor n :=
  { s with
    sys := { s.sys with pool, freeing := f }
    workAvailable := if s.sys.freeing = .notCalled then ∅ else s.workAvailable }

/-- Every order of the critical sections. A blocked thread moves again only after
a signal, a broadcast or a spurious wakeup. -/
inductive MonitorStep : Monitor n → List Event → Monitor n → Prop
  | enqueue (s : Monitor n) (hasLambda hasCallback : Bool) (grants : Grants) (code : Int) (pool : ThreadPool)
    (events : List Event) (workAvailable : Finset (Fin n)) (hlive : s.sys.freeing ≠ .done)
    (hfresh : ∀ a, grants.node = some a → s.sys.pool.nodes a = none)
    (he : akThreadPoolEnqueue s.sys.pool hasLambda hasCallback grants = some (code, pool, events))
    (hsignal : if code = 0 then Signal s.workAvailable workAvailable else workAvailable = s.workAvailable) :
    MonitorStep s events { s with sys := { s.sys with pool }, workAvailable }
  | worker (s : Monitor n) (i : Fin n) (p : WorkerPhase) (pool : ThreadPool) (events : List Event)
    (hawake : i ∉ s.workAvailable) (hw : workerStep s.sys.pool (s.sys.workers i) = some (p, pool, events)) :
    MonitorStep s events (s.worker i p pool)
  | workerWakes (s : Monitor n) (i : Fin n) (hi : i ∈ s.workAvailable) :
    MonitorStep s [] { s with workAvailable := s.workAvailable.erase i }
  | callWait (s : Monitor n) (caller : Nat) (hlive : s.sys.freeing ≠ .done) (hcaller : caller ∉ s.waiting) :
    MonitorStep s [] { s with waiting := insert caller s.waiting }
  | wait (s : Monitor n) (caller : Nat) (hlive : s.sys.freeing ≠ .done) (hcaller : caller ∈ s.waiting)
    (hawake : caller ∉ s.workComplete) : MonitorStep s (s.wait caller).2 (s.wait caller).1
  | waiterWakes (s : Monitor n) (caller : Nat) (hcaller : caller ∈ s.workComplete) :
    MonitorStep s [] { s with workComplete := s.workComplete.erase caller }
  | free (s : Monitor n) (f : FreePhase) (pool : ThreadPool) (events : List Event)
    (hf : freeStep s.sys = some (f, pool, events)) : MonitorStep s events (s.free f pool)

def Monitor.new (sys : System n) : Monitor n := ⟨sys, ∅, ∅, ∅⟩

theorem MonitorStep.forget {s s' : Monitor n} {events : List Event} (h : MonitorStep s events s') :
    Step s.sys events s'.sys ∨ (events = [] ∧ s'.sys = s.sys) := by
  cases h with
  | enqueue hasLambda hasCallback grants code pool _ workAvailable hlive hfresh he =>
      exact .inl (.enqueue s.sys hasLambda hasCallback grants code pool events hlive hfresh he)
  | worker i p pool _ hawake hw => exact .inl (.worker s.sys i p pool events hw)
  | workerWakes | callWait | waiterWakes => exact .inr ⟨rfl, rfl⟩
  | wait caller hlive =>
      rw [Monitor.wait]
      split_ifs with hblocks
      · exact .inr ⟨rfl, rfl⟩
      · simp only [waitBlocks, decide_eq_true_eq, not_or, Nat.not_lt, Nat.le_zero] at hblocks
        exact .inl (.wait s.sys hlive hblocks.1 hblocks.2)
  | free f pool _ hf => exact .inl (.free s.sys f pool events hf)

section Counters

variable {pool pool' : ThreadPool} {events : List Event}

theorem enqueue_counters {hasLambda hasCallback : Bool} {grants : Grants} {code : Int}
    (h : akThreadPoolEnqueue pool hasLambda hasCallback grants = some (code, pool', events)) :
    (code ≠ 0 ∧ pool' = pool) ∨
      (code = 0 ∧ pool.state = .running ∧ pool'.state = .running ∧ pool'.queueSize = pool.queueSize + 1) := by
  rw [akThreadPoolEnqueue] at h
  split_ifs at h with hlambda hstate hfull htask
  · cases h
    exact .inl ⟨by decide, rfl⟩
  · cases h
    exact .inl ⟨by decide, rfl⟩
  · cases h
    exact .inl ⟨by decide, rfl⟩
  · cases h
    exact .inl ⟨by decide, rfl⟩
  · have hrunning : pool.state = .running := not_not.mp hstate
    cases hnode : grants.node with
    | none =>
        simp only [hnode] at h
        cases h
        exact .inl ⟨by decide, rfl⟩
    | some node =>
        simp only [hnode] at h
        cases htail : pool.queueTail with
        | none =>
            simp only [htail] at h
            cases h
            exact .inr ⟨rfl, hrunning, hrunning, rfl⟩
        | some tail =>
            simp only [htail, bind, Option.bind_eq_some_iff] at h
            obtain ⟨last, -, h⟩ := h
            cases h
            exact .inr ⟨rfl, hrunning, hrunning, rfl⟩

theorem dequeue_counters {task : Option Nat} (h : poolDequeueTask pool = some (task, pool')) :
    pool'.state = pool.state ∧ pool'.queueSize ≤ pool.queueSize := by
  rw [poolDequeueTask] at h
  cases hhead : pool.queueHead with
  | none =>
      simp only [hhead] at h
      cases h
      exact ⟨rfl, le_rfl⟩
  | some head =>
      simp only [hhead, bind, Option.bind_eq_some_iff] at h
      obtain ⟨node, -, h⟩ := h
      split_ifs at h
      all_goals
        cases h
        exact ⟨rfl, Nat.sub_le _ _⟩

theorem worker_counters {p p' : WorkerPhase} (h : workerStep pool p = some (p', pool', events)) :
    pool'.state = pool.state ∧ pool'.queueSize ≤ pool.queueSize ∧
      (waitBlocks pool → waitBlocks pool' ∨ workerBroadcasts p pool') := by
  cases p with
  | loop =>
      rw [workerStep] at h
      split_ifs at h
      · cases h
        exact ⟨rfl, le_rfl, .inl⟩
      · cases h
        exact ⟨rfl, le_rfl, .inl⟩
      · simp only [bind, Option.bind_eq_some_iff] at h
        obtain ⟨⟨task, dequeued⟩, hdequeue, h⟩ := h
        obtain ⟨hstate, hsize⟩ := dequeue_counters hdequeue
        cases task with
        | none | some =>
            cases h
            exact ⟨hstate, hsize, fun _ => .inl (by simp [waitBlocks])⟩
  | start task =>
      simp only [workerStep, bind, Option.bind_eq_some_iff] at h
      obtain ⟨t, -, h⟩ := h
      split_ifs at h
      all_goals
        cases h
        exact ⟨rfl, le_rfl, .inl⟩
  | complete task | callback task =>
      simp only [workerStep, bind, Option.bind_eq_some_iff] at h
      obtain ⟨t, -, h⟩ := h
      cases h
      exact ⟨rfl, le_rfl, .inl⟩
  | invoke task | release task =>
      cases h
      exact ⟨rfl, le_rfl, .inl⟩
  | finish =>
      cases h
      refine ⟨rfl, le_rfl, fun _ => ?_⟩
      by_cases hblocks : waitBlocks { pool with activeCount := pool.activeCount - 1 }
      · exact .inl hblocks
      · right
        simp only [waitBlocks, decide_eq_true_eq, not_or, Nat.not_lt, Nat.le_zero] at hblocks
        simpa [workerBroadcasts] using hblocks
  | exited => cases h

theorem free_counters {trace : List Event} {sys : System n} {f : FreePhase} (hinv : Inv trace sys) (hn : 0 < n)
    (h : freeStep sys = some (f, pool, events)) :
    pool.queueSize = sys.pool.queueSize ∧ pool.activeCount = sys.pool.activeCount := by
  obtain ⟨q, d, hqueue, -, hcontrol⟩ := hinv
  cases hfree : sys.freeing with
  | notCalled =>
      simp only [freeStep, hfree] at h
      cases h
      exact ⟨rfl, rfl⟩
  | join i =>
      simp only [freeStep, hfree] at h
      split_ifs at h
      all_goals
        cases h
        exact ⟨rfl, rfl⟩
  | drain =>
      have hq : q = [] := hcontrol.drained hqueue hn (by rw [hfree]; rfl)
      simp only [freeStep, hfree, hqueue.empty_iff.mpr hq] at h
      cases h
      exact ⟨rfl, rfl⟩
  | done =>
      simp only [freeStep, hfree] at h
      cases h

end Counters

/-- There are as many workers awake as tasks are queued, or all are; a pool that
stops leaves none asleep; a caller sleeps only while there is work to wait for. -/
structure WakeupOk (s : Monitor n) : Prop where
  covered : s.workAvailable = ∅ ∨ s.sys.pool.queueSize + s.workAvailable.card ≤ n
  stopped : s.sys.pool.state ≠ .running → s.workAvailable = ∅
  pending : s.workComplete.Nonempty → waitBlocks s.sys.pool

section Steps

variable {s : Monitor n} {pool : ThreadPool} {events trace : List Event}

theorem WakeupOk.enqueue {hasLambda hasCallback : Bool} {grants : Grants} {code : Int}
    {workAvailable : Finset (Fin n)} (h : WakeupOk s)
    (he : akThreadPoolEnqueue s.sys.pool hasLambda hasCallback grants = some (code, pool, events))
    (hsignal : if code = 0 then Signal s.workAvailable workAvailable else workAvailable = s.workAvailable) :
    WakeupOk { s with sys := { s.sys with pool }, workAvailable } := by
  rcases enqueue_counters he with ⟨hcode, rfl⟩ | ⟨rfl, hrunning, hstate, hsize⟩
  · rw [if_neg hcode] at hsignal
    subst hsignal
    exact h
  · rw [if_pos rfl] at hsignal
    refine ⟨?_, fun hstop => absurd hstate hstop, fun _ => by simp [waitBlocks, hsize]⟩
    rcases hsignal.card_succ with hnone | hcard
    · exact .inl hnone
    · right
      rcases h.covered with hempty | hcovered
      · simp [hempty] at hcard
      · show pool.queueSize + workAvailable.card ≤ n
        omega

theorem WakeupOk.worker {i : Fin n} {p : WorkerPhase} (h : WakeupOk s)
    (hw : workerStep s.sys.pool (s.sys.workers i) = some (p, pool, events)) : WakeupOk (s.worker i p pool) := by
  obtain ⟨hstate, hsize, hpending⟩ := worker_counters hw
  constructor
  · simp only [Monitor.worker]
    split_ifs with hblocks
    · right
      simp only [workerBlocks, decide_eq_true_eq] at hblocks
      have hcard := Finset.card_le_univ (insert i s.workAvailable)
      rw [Fintype.card_fin] at hcard
      omega
    · exact h.covered.imp_right (Nat.add_le_add_right hsize _).trans
  · intro hstop
    simp only [Monitor.worker, hstate] at hstop ⊢
    split_ifs with hblocks
    · simp only [workerBlocks, decide_eq_true_eq] at hblocks
      exact absurd hblocks.2.1 hstop
    · exact h.stopped hstop
  · intro hblocked
    simp only [Monitor.worker] at hblocked ⊢
    split_ifs at hblocked with hbroadcast
    · simp at hblocked
    · exact (hpending (h.pending hblocked)).resolve_right hbroadcast

theorem WakeupOk.wait {caller : Nat} (h : WakeupOk s) : WakeupOk (s.wait caller).1 := by
  rw [Monitor.wait]
  split_ifs with hblocks
  · exact ⟨h.covered, h.stopped, fun _ => hblocks⟩
  · exact ⟨h.covered, h.stopped, h.pending⟩

theorem WakeupOk.free {f : FreePhase} (h : WakeupOk s) (hinv : Inv trace s.sys) (hn : 0 < n)
    (hf : freeStep s.sys = some (f, pool, events)) : WakeupOk (s.free f pool) := by
  obtain ⟨hsize, hactive⟩ := free_counters hinv hn hf
  obtain ⟨q, d, -, -, hcontrol⟩ := hinv
  have hasleep : (s.free f pool).workAvailable = ∅ := by
    simp only [Monitor.free]
    split_ifs with hcall
    · rfl
    · exact h.stopped (hcontrol.stopping hcall)
  refine ⟨.inl hasleep, fun _ => hasleep, fun hblocked => ?_⟩
  simpa only [Monitor.free, waitBlocks, hsize, hactive] using h.pending hblocked

theorem WakeupOk.step {s' : Monitor n} (h : WakeupOk s) (hinv : Inv trace s.sys) (hn : 0 < n)
    (hs : MonitorStep s events s') : WakeupOk s' := by
  cases hs with
  | enqueue hasLambda hasCallback grants code pool _ workAvailable hlive hfresh he hsignal =>
      exact h.enqueue he hsignal
  | worker i p pool _ hawake hw => exact h.worker hw
  | workerWakes i hi =>
      refine ⟨?_, fun hstop => ?_, h.pending⟩
      · have hle : (s.workAvailable.erase i).card ≤ s.workAvailable.card := Finset.card_erase_le
        rcases h.covered with hempty | hcovered
        · exact .inl (by simp [hempty])
        · exact .inr ((Nat.add_le_add_left hle _).trans hcovered)
      · simp [h.stopped hstop]
  | callWait => exact ⟨h.covered, h.stopped, h.pending⟩
  | wait caller => exact h.wait
  | waiterWakes caller =>
      exact ⟨h.covered, h.stopped, fun hblocked => h.pending (hblocked.mono (Finset.erase_subset _ _))⟩
  | free f pool _ hf => exact h.free hinv hn hf

end Steps

section Runs

variable {maxQueueSize : Nat} {granted : Bool} {sys : System n} {s s' : Monitor n} {trace events : List Event}

theorem run_wakeupOk (hnew : akThreadPoolNew n maxQueueSize granted = some sys)
    (hrun : Run MonitorStep (Monitor.new sys) trace s) : Inv trace s.sys ∧ WakeupOk s := by
  have hn := workers_pos hnew
  apply hrun.invariant (P := fun trace s => Inv trace s.sys ∧ WakeupOk s)
  · exact ⟨Inv.start hnew, ⟨.inl rfl, fun _ => rfl, by simp [Monitor.new]⟩⟩
  · rintro trace s events s' ⟨hinv, h⟩ hs
    refine ⟨?_, h.step hinv hn hs⟩
    rcases hs.forget with hstep | ⟨rfl, heq⟩
    · exact hinv.step hn hstep
    · rwa [List.append_nil, heq]

theorem wait_returns_idle {caller : Nat} (hs : MonitorStep s events s') (hin : caller ∈ s.waiting)
    (hout : caller ∉ s'.waiting) : s.sys.pool.queueSize = 0 ∧ s.sys.pool.activeCount = 0 := by
  cases hs with
  | enqueue | worker | workerWakes | waiterWakes | free => exact absurd hin hout
  | callWait => exact absurd (Finset.mem_insert_of_mem hin) hout
  | wait other =>
      rw [Monitor.wait] at hout
      split_ifs at hout with hblocks
      · exact absurd hin hout
      · simpa [waitBlocks] using hblocks

/-- The pool loses no wakeup. -/
theorem no_lost_wakeup (hnew : akThreadPoolNew n maxQueueSize granted = some sys)
    (hrun : Run MonitorStep (Monitor.new sys) trace s) :
    (∀ events s' caller, MonitorStep s events s' → caller ∈ s.waiting → caller ∉ s'.waiting →
      s.sys.pool.queueSize = 0 ∧ s.sys.pool.activeCount = 0) ∧
    (∀ caller ∈ s.workComplete, ¬(s.sys.pool.queueSize = 0 ∧ s.sys.pool.activeCount = 0)) ∧
    (0 < s.sys.pool.queueSize ∨ s.sys.pool.state ≠ .running → ∃ i, i ∉ s.workAvailable) := by
  obtain ⟨-, h⟩ := run_wakeupOk hnew hrun
  refine ⟨fun events s' caller => wait_returns_idle, ?_, ?_⟩
  · intro caller hcaller hidle
    have hblocks := h.pending ⟨caller, hcaller⟩
    simp [waitBlocks, hidle] at hblocks
  · intro hwork
    by_contra hall
    push Not at hall
    have huniv : s.workAvailable = Finset.univ := Finset.eq_univ_of_forall hall
    have hcard : s.workAvailable.card = n := by rw [huniv, Finset.card_univ, Fintype.card_fin]
    have hne : s.workAvailable ≠ ∅ := Finset.ne_empty_of_mem (hall ⟨0, workers_pos hnew⟩)
    rcases hwork with hqueue | hstop
    · have hcovered := h.covered.resolve_left hne
      omega
    · exact hne (h.stopped hstop)

/-- A worker and a caller fall asleep, one enqueue wakes the worker, and its
completion wakes the caller. -/
theorem sleeping_worker_run : ∃ sys s, akThreadPoolNew 1 4 true = some sys ∧
    Run MonitorStep (Monitor.new sys)
      [.enqueued 0, .dequeued 0, .executed 0, .freed 0] s ∧
    (∀ caller ∈ s.workComplete, ¬(s.sys.pool.queueSize = 0 ∧ s.sys.pool.activeCount = 0)) ∧
    (0 < s.sys.pool.queueSize ∨ s.sys.pool.state ≠ .running → ∃ i, i ∉ s.workAvailable) := by
  have hnew : akThreadPoolNew 1 4 true =
      some ⟨⟨4, 0, none, none, 0, .running, fun _ => none, []⟩, fun _ => .loop, .notCalled⟩ := rfl
  have r₁ := Run.next .start (MonitorStep.worker (n := 1)
    (Monitor.new ⟨⟨4, 0, none, none, 0, .running, fun _ => none, []⟩, fun _ => .loop, .notCalled⟩) 0 _ _ _
    (by decide) rfl)
  have r₂ := r₁.next (.enqueue _ true false ⟨true, some 0⟩ _ _ _ _ (by decide) (fun _ _ => rfl) rfl
    (.wake 0 (by decide)))
  have r₃ := r₂.next (.callWait _ 7 (by decide) (by decide))
  have r₄ := r₃.next (.wait _ 7 (by decide) (by decide) (by decide))
  have r₅ := r₄.next (.worker _ 0 _ _ _ (by decide) rfl)
  have r₆ := r₅.next (.worker _ 0 _ _ _ (by decide) rfl)
  have r₇ := r₆.next (.worker _ 0 _ _ _ (by decide) rfl)
  have r₈ := r₇.next (.worker _ 0 _ _ _ (by decide) rfl)
  have r₉ := r₈.next (.worker _ 0 _ _ _ (by decide) rfl)
  have r₁₀ := r₉.next (.worker _ 0 _ _ _ (by decide) rfl)
  have r₁₁ := r₁₀.next (.worker _ 0 _ _ _ (by decide) rfl)
  exact ⟨_, _, hnew, r₁₁, (no_lost_wakeup hnew r₁₁).2⟩

end Runs

end Ak24.ThreadPoolWakeup
