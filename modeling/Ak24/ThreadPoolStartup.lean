import Ak24.ThreadPoolWakeup

namespace Ak24.ThreadPoolStartup

open ThreadPoolModel ThreadPoolWakeup Transition

/-- Where a started worker is, between the steps that other threads can come
between. It holds the mutex in `test`, `wait` and `leave`; `work` is the part of
the loop that has a task. -/
inductive WorkerPc
  | absent
  | lock
  | test
  | wait
  | blocked
  | notified
  | leave
  | work (p : WorkerPhase)
  | exited
  deriving DecidableEq, Repr

/-- Where the constructor is: creating worker `i`, storing the new state and
broadcasting once that has failed, joining worker `j` of the `i` started. -/
inductive NewPhase
  | create (i : Nat)
  | store (i : Nat)
  | broadcast (i : Nat)
  | join (i j : Nat)
  | failed
  | returned
  deriving DecidableEq, Repr

structure Startup (n : Nat) where
  pool : ThreadPool
  mutex : Option (Fin n)
  workers : Fin n → WorkerPc
  new : NewPhase

variable {n : Nat}

def workerAdvance (s : Startup n) (i : Fin n) : WorkerPc → Option (WorkerPc × ThreadPool × Option (Fin n))
  | .lock | .notified => if s.mutex = none then some (.test, s.pool, some i) else none
  | .test =>
    if s.pool.state = .running ∧ s.pool.queueSize = 0 then some (.wait, s.pool, s.mutex)
    else some (.leave, s.pool, s.mutex)
  | .wait => some (.blocked, s.pool, none)
  | .leave =>
    if s.pool.state ≠ .running ∧ s.pool.queueSize = 0 then some (.exited, s.pool, none)
    else do
      let (task, pool) ← poolDequeueTask s.pool
      some (.work ((task.map .start).getD .finish), { pool with activeCount := pool.activeCount + 1 }, none)
  | .work .finish =>
    if s.mutex = none then some (.lock, { s.pool with activeCount := s.pool.activeCount - 1 }, none) else none
  | .work p => do
    let (p, pool, _) ← workerStep s.pool p
    some (.work p, pool, s.mutex)
  | .absent | .blocked | .exited => none

def notify : WorkerPc → WorkerPc
  | .blocked => .notified
  | p => p

/-- The loop of `ak_thread_pool_new` that starts the workers, with its failure
path, which does not take the mutex. -/
def newAdvance (s : Startup n) (created : Bool) : Option (Startup n) :=
  match s.new with
  | .create i =>
    if h : i < n then
      if created then some { s with workers := Function.update s.workers ⟨i, h⟩ .lock, new := .create (i + 1) }
      else some { s with new := .store i }
    else some { s with new := .returned }
  | .store i => some { s with pool := { s.pool with state := .shuttingDown }, new := .broadcast i }
  | .broadcast i => some { s with workers := fun k => notify (s.workers k), new := .join i 0 }
  | .join i j =>
    if h : j < n then
      if j < i then (if s.workers ⟨j, h⟩ = .exited then some { s with new := .join i (j + 1) } else none)
      else some { s with new := .failed }
    else some { s with new := .failed }
  | .failed | .returned => none

inductive Party (n : Nat)
  | constructor
  | worker (i : Fin n)
  | wakeup (i : Fin n)
  deriving DecidableEq, Repr

/-- Every order of the steps; a blocked worker may also wake up by itself. -/
inductive StartupStep : Startup n → List (Party n) → Startup n → Prop
  | constructor (s s' : Startup n) (created : Bool) (h : newAdvance s created = some s') :
    StartupStep s [.constructor] s'
  | worker (s : Startup n) (i : Fin n) (p : WorkerPc) (pool : ThreadPool) (mutex : Option (Fin n))
    (h : workerAdvance s i (s.workers i) = some (p, pool, mutex)) :
    StartupStep s [.worker i] { s with pool, mutex, workers := Function.update s.workers i p }
  | wakeup (s : Startup n) (i : Fin n) (h : s.workers i = .blocked) :
    StartupStep s [.wakeup i] { s with workers := Function.update s.workers i .notified }

def Startup.begin (n maxQueueSize : Nat) : Startup n :=
  ⟨⟨maxQueueSize, 0, none, none, 0, .running, fun _ => none, []⟩, none, fun _ => .absent, .create 0⟩

/-- The constructor joins a worker that nothing will wake. -/
def Hangs (s : Startup n) : Prop :=
  ∃ i j, s.new = .join i j ∧ j < i ∧ ∃ h : j < n, s.workers ⟨j, h⟩ = .blocked

/-- The constructor broadcasts when no worker is between its test of the pool
and its blocking. -/
def BroadcastReachesAll (s : Startup n) (party : List (Party n)) : Prop :=
  party = [.constructor] → ∀ i, s.new = .broadcast i → ∀ k, s.workers k ≠ .wait

section Steps

variable {s s' : Startup n} {i : Fin n} {pc p : WorkerPc} {pool : ThreadPool} {mutex : Option (Fin n)}

theorem workerAdvance_spec (h : workerAdvance s i pc = some (p, pool, mutex)) :
    pool.state = s.pool.state ∧ (p = .wait → s.pool.state = .running) ∧ (p = .blocked → pc = .wait) := by
  cases pc with
  | lock | notified =>
      simp only [workerAdvance] at h
      split_ifs at h
      cases h
      exact ⟨rfl, nofun, nofun⟩
  | test =>
      simp only [workerAdvance] at h
      split_ifs at h with hidle
      · cases h
        exact ⟨rfl, fun _ => hidle.1, nofun⟩
      · cases h
        exact ⟨rfl, nofun, nofun⟩
  | wait =>
      cases h
      exact ⟨rfl, nofun, fun _ => rfl⟩
  | leave =>
      simp only [workerAdvance] at h
      split_ifs at h
      · cases h
        exact ⟨rfl, nofun, nofun⟩
      · simp only [bind, Option.bind_eq_some_iff] at h
        obtain ⟨⟨task, dequeued⟩, hdequeue, h⟩ := h
        cases h
        exact ⟨(dequeue_counters hdequeue).1, nofun, nofun⟩
  | work p =>
      cases p with
      | finish =>
          simp only [workerAdvance] at h
          split_ifs at h
          cases h
          exact ⟨rfl, nofun, nofun⟩
      | loop | start | invoke | complete | callback | release | exited =>
          simp only [workerAdvance, bind, Option.bind_eq_some_iff] at h
          obtain ⟨⟨p', pool', events⟩, hstep, h⟩ := h
          cases h
          exact ⟨(worker_counters hstep).1, nofun, nofun⟩
  | absent | blocked | exited => cases h

structure StartupOk (s : Startup n) : Prop where
  stopping : ∀ i, s.new = .broadcast i → s.pool.state ≠ .running
  joining : ∀ i j, s.new = .join i j → s.pool.state ≠ .running ∧ ∀ k, s.workers k ≠ .wait ∧ s.workers k ≠ .blocked

theorem StartupOk.constructor {created : Bool} (h : StartupOk s) (hreach : BroadcastReachesAll s [.constructor])
    (hs : newAdvance s created = some s') : StartupOk s' := by
  rw [newAdvance] at hs
  cases hnew : s.new with
  | create i =>
      simp only [hnew] at hs
      split_ifs at hs
      all_goals
        cases hs
        exact ⟨nofun, nofun⟩
  | store i =>
      simp only [hnew] at hs
      cases hs
      exact ⟨by simp, nofun⟩
  | broadcast i =>
      simp only [hnew] at hs
      cases hs
      refine ⟨nofun, fun _ _ _ => ⟨h.stopping i hnew, fun k => ?_⟩⟩
      have hwait := hreach rfl i hnew k
      cases hk : s.workers k with
      | wait => exact absurd hk hwait
      | absent | lock | test | blocked | notified | leave | work | exited => simp [hk, notify]
  | join i j =>
      simp only [hnew] at hs
      split_ifs at hs
      · cases hs
        exact ⟨nofun, fun _ _ _ => h.joining i j hnew⟩
      all_goals
        cases hs
        exact ⟨nofun, nofun⟩
  | failed | returned =>
      simp only [hnew] at hs
      cases hs

theorem StartupOk.worker (h : StartupOk s) (hw : workerAdvance s i (s.workers i) = some (p, pool, mutex)) :
    StartupOk { s with pool, mutex, workers := Function.update s.workers i p } := by
  obtain ⟨hstate, hwait, hblocked⟩ := workerAdvance_spec hw
  refine ⟨fun j hj => ?_, fun j k hj => ?_⟩
  · rw [hstate]
    exact h.stopping j hj
  · obtain ⟨hstop, hawake⟩ := h.joining j k hj
    refine ⟨by rwa [hstate], ?_⟩
    apply (Function.forall_update_iff s.workers fun _ q => q ≠ .wait ∧ q ≠ .blocked).mpr
    exact ⟨⟨fun hp => hstop (hwait hp), fun hp => (hawake i).1 (hblocked hp)⟩, fun m _ => hawake m⟩

theorem StartupOk.step {party : List (Party n)} (h : StartupOk s) (hreach : BroadcastReachesAll s party)
    (hs : StartupStep s party s') : StartupOk s' := by
  cases hs with
  | constructor _ created hc => exact h.constructor hreach hc
  | worker i p pool mutex hw => exact h.worker hw
  | wakeup i hi =>
      refine ⟨h.stopping, fun j k hj => ?_⟩
      exact absurd hi ((h.joining j k hj).2 i).2

def holdsMutex : WorkerPc → Bool
  | .test | .wait | .leave => true
  | .absent | .lock | .blocked | .notified | .work _ | .exited => false

theorem workerAdvance_mutex (h : workerAdvance s i pc = some (p, pool, mutex)) :
    (holdsMutex pc ∨ s.mutex = none ∨ mutex = s.mutex) ∧
      (holdsMutex p → mutex = some i ∨ (holdsMutex pc ∧ mutex = s.mutex)) := by
  cases pc with
  | lock | notified =>
      simp only [workerAdvance] at h
      split_ifs at h with hfree
      cases h
      exact ⟨.inr (.inl hfree), fun _ => .inl rfl⟩
  | test =>
      simp only [workerAdvance] at h
      split_ifs at h
      all_goals
        cases h
        exact ⟨.inl rfl, fun _ => .inr ⟨rfl, rfl⟩⟩
  | wait =>
      cases h
      exact ⟨.inl rfl, nofun⟩
  | leave =>
      simp only [workerAdvance] at h
      split_ifs at h
      · cases h
        exact ⟨.inl rfl, nofun⟩
      · simp only [bind, Option.bind_eq_some_iff] at h
        obtain ⟨_, -, h⟩ := h
        cases h
        exact ⟨.inl rfl, nofun⟩
  | work p =>
      cases p with
      | finish =>
          simp only [workerAdvance] at h
          split_ifs at h with hfree
          cases h
          exact ⟨.inr (.inl hfree), nofun⟩
      | loop | start | invoke | complete | callback | release | exited =>
          simp only [workerAdvance, bind, Option.bind_eq_some_iff] at h
          obtain ⟨_, -, h⟩ := h
          cases h
          exact ⟨.inr (.inr rfl), nofun⟩
  | absent | blocked | exited => cases h

def MutexOk (mutex : Option (Fin n)) (workers : Fin n → WorkerPc) : Prop :=
  ∀ k, holdsMutex (workers k) → mutex = some k

theorem MutexOk.idle {workers : Fin n → WorkerPc} (h : MutexOk mutex workers) (hp : holdsMutex p = false) :
    MutexOk mutex (Function.update workers i p) := by
  apply (Function.forall_update_iff workers fun k q => holdsMutex q → mutex = some k).mpr
  exact ⟨by simp [hp], fun k _ => h k⟩

theorem MutexOk.constructor {created : Bool} (h : MutexOk s.mutex s.workers) (hs : newAdvance s created = some s') :
    MutexOk s'.mutex s'.workers := by
  rw [newAdvance] at hs
  split at hs
  · split_ifs at hs
    · cases hs
      exact h.idle rfl
    all_goals
      cases hs
      exact h
  · cases hs
    exact h
  · cases hs
    intro k hk
    apply h k
    cases hp : s.workers k <;> simp_all [notify, holdsMutex]
  · split_ifs at hs
    all_goals
      cases hs
      exact h
  all_goals cases hs

theorem MutexOk.worker (h : MutexOk s.mutex s.workers)
    (hw : workerAdvance s i (s.workers i) = some (p, pool, mutex)) :
    MutexOk mutex (Function.update s.workers i p) := by
  obtain ⟨hkeep, hheld⟩ := workerAdvance_mutex hw
  apply (Function.forall_update_iff s.workers fun k q => holdsMutex q → mutex = some k).mpr
  constructor
  · intro hp
    rcases hheld hp with hmine | ⟨hbefore, rfl⟩
    · exact hmine
    · exact h i hbefore
  · intro k hki hk
    have hmutex := h k hk
    rcases hkeep with hbefore | hfree | rfl
    · exact absurd (Option.some.inj (hmutex.symm.trans (h i hbefore))) hki
    · simp [hfree] at hmutex
    · exact hmutex

/-- A broadcast made while nobody has the mutex, as by `ak_thread_pool_free`
when it has taken it, reaches every worker. -/
theorem broadcast_reaches_all_of_free {maxQueueSize : Nat} {trace : List (Party n)}
    (hrun : Run StartupStep (Startup.begin n maxQueueSize) trace s) (hfree : s.mutex = none)
    (party : List (Party n)) : BroadcastReachesAll s party := by
  have h : MutexOk s.mutex s.workers := by
    apply hrun.invariant (P := fun _ s => MutexOk s.mutex s.workers)
    · exact nofun
    · intro trace s party s' h hs
      cases hs with
      | constructor _ created hc => exact h.constructor hc
      | worker i p pool mutex hw => exact h.worker hw
      | wakeup i hi => exact h.idle rfl
  intro _ i _ k hk
  have hmutex := h k (by rw [hk]; rfl)
  simp [hfree] at hmutex

end Steps

/-- Where every broadcast reaches all workers the constructor does not hang, and
a broadcast made while nobody has the mutex does. -/
theorem startup_never_hangs {maxQueueSize : Nat} {trace : List (Party n)} {s : Startup n}
    (hrun : Run (guarded BroadcastReachesAll StartupStep) (Startup.begin n maxQueueSize) trace s) :
    ¬Hangs s ∧ (s.mutex = none → ∀ party, BroadcastReachesAll s party) := by
  have h : StartupOk s := by
    apply hrun.invariant (P := fun _ s => StartupOk s)
    · exact ⟨nofun, nofun⟩
    · rintro trace s party s' h ⟨hs, hreach⟩
      exact h.step hreach hs
  refine ⟨?_, broadcast_reaches_all_of_free hrun.of_guarded⟩
  rintro ⟨i, j, hjoin, -, hj, hblocked⟩
  exact ((h.joining i j hjoin).2 ⟨j, hj⟩).2 hblocked

/-- Two workers, the second of which cannot be created: the first one blocks
before the broadcast and is woken by it. -/
theorem startup_never_hangs_blocked_worker : ∃ trace s,
    Run (guarded BroadcastReachesAll StartupStep) (Startup.begin 2 4) trace s ∧
      s.new = .join 1 0 ∧ s.workers 0 = .notified ∧ ¬Hangs s := by
  have r₁ : Run (guarded BroadcastReachesAll StartupStep) (Startup.begin 2 4) _ _ :=
    .next .start ⟨.constructor _ _ true rfl, nofun⟩
  have r₂ := r₁.next ⟨.worker _ 0 _ _ _ rfl, nofun⟩
  have r₃ := r₂.next ⟨.worker _ 0 _ _ _ rfl, nofun⟩
  have r₄ := r₃.next ⟨.worker _ 0 _ _ _ rfl, nofun⟩
  have r₅ := r₄.next ⟨.constructor _ _ false rfl, nofun⟩
  have r₆ := r₅.next ⟨.constructor _ _ false rfl, nofun⟩
  have r₇ := r₆.next ⟨.constructor _ _ false rfl, fun _ _ _ => by decide⟩
  exact ⟨_, _, r₇, rfl, rfl, (startup_never_hangs r₇).1⟩

/-- The first worker has tested the pool and is about to block when the
constructor stores the new state and broadcasts. -/
theorem startup_hangs : ∃ trace s, Run StartupStep (Startup.begin 2 4) trace s ∧ Hangs s := by
  have r₁ := Run.next .start (StartupStep.constructor (Startup.begin 2 4) _ true rfl)
  have r₂ := r₁.next (.worker _ 0 _ _ _ rfl)
  have r₃ := r₂.next (.worker _ 0 _ _ _ rfl)
  have r₄ := r₃.next (.constructor _ _ false rfl)
  have r₅ := r₄.next (.constructor _ _ false rfl)
  have r₆ := r₅.next (.constructor _ _ false rfl)
  have r₇ := r₆.next (.worker _ 0 _ _ _ rfl)
  exact ⟨_, _, r₇, 1, 0, rfl, by decide, by decide, rfl⟩

end Ak24.ThreadPoolStartup
