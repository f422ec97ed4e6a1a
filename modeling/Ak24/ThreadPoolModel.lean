import Mathlib

namespace Ak24.ThreadPoolModel

inductive PoolState
  | initializing
  | running
  | shuttingDown
  | terminated
  deriving DecidableEq, Repr

inductive TaskState
  | pending
  | running
  | completed
  | failed
  deriving DecidableEq, Repr

structure Task where
  state : TaskState
  hasCallback : Bool
  deriving DecidableEq, Repr

abbrev Addr := Nat

structure TaskNode where
  task : Nat
  next : Option Addr
  deriving DecidableEq, Repr

/-- `nodes` are the allocated queue nodes; `tasks` are all tasks accepted so far,
and a task is named by its place in that list. -/
structure ThreadPool where
  maxQueueSize : Nat
  activeCount : Nat
  queueHead : Option Addr
  queueTail : Option Addr
  queueSize : Nat
  state : PoolState
  nodes : Addr → Option TaskNode
  tasks : List Task

inductive Event
  | enqueued (task : Nat)
  | dequeued (task : Nat)
  | executed (task : Nat)
  | calledBack (task : Nat) (state : TaskState)
  | freed (task : Nat)
  | discarded
  | waited
  | returned
  deriving DecidableEq, Repr

structure Grants where
  task : Bool
  node : Option Addr

def ThreadPool.accept (pool : ThreadPool) (node : Addr) (hasCallback : Bool) : ThreadPool :=
  { pool with
    queueTail := some node
    queueSize := pool.queueSize + 1
    nodes := Function.update pool.nodes node (some ⟨pool.tasks.length, none⟩)
    tasks := pool.tasks ++ [⟨.pending, hasCallback⟩] }

/-- The whole of `ak_thread_pool_enqueue` is one critical section. `none` is an
access through a dangling pointer; `discarded` frees the lambdas of a task that
gets no node. -/
def akThreadPoolEnqueue (pool : ThreadPool) (hasLambda hasCallback : Bool) (grants : Grants) :
    Option (Int × ThreadPool × List Event) :=
  if !hasLambda then some (-1, pool, [])
  else if pool.state ≠ .running then some (-1, pool, [])
  else if 0 < pool.maxQueueSize ∧ pool.maxQueueSize ≤ pool.queueSize then some (-1, pool, [])
  else if !grants.task then some (-1, pool, [])
  else
    match grants.node with
    | none => some (-1, pool, [.discarded])
    | some node =>
      let accepted := pool.accept node hasCallback
      match pool.queueTail with
      | some tail => do
        let last ← accepted.nodes tail
        let nodes := Function.update accepted.nodes tail (some { last with next := some node })
        some (0, { accepted with nodes }, [.enqueued pool.tasks.length])
      | none => some (0, { accepted with queueHead := some node }, [.enqueued pool.tasks.length])

def poolDequeueTask (pool : ThreadPool) : Option (Option Nat × ThreadPool) :=
  match pool.queueHead with
  | none => some (none, pool)
  | some head => do
    let node ← pool.nodes head
    let pool := { pool with queueHead := node.next }
    let pool := if pool.queueHead = none then { pool with queueTail := none } else pool
    some (some node.task,
      { pool with queueSize := pool.queueSize - 1, nodes := Function.update pool.nodes head none })

/-- Where a worker is in its loop. In `loop` it is about to take the lock at the
top, or waits there for work; from `start` to `release` it has a task. -/
inductive WorkerPhase
  | loop
  | start (task : Nat)
  | invoke (task : Nat)
  | complete (task : Nat)
  | callback (task : Nat)
  | release (task : Nat)
  | finish
  | exited
  deriving DecidableEq, Repr

def ThreadPool.setState (pool : ThreadPool) (task : Nat) (t : Task) (state : TaskState) : ThreadPool :=
  { pool with tasks := pool.tasks.set task { t with state } }

def workerStep (pool : ThreadPool) : WorkerPhase → Option (WorkerPhase × ThreadPool × List Event)
  | .loop =>
    if pool.state = .running ∧ pool.queueSize = 0 then some (.loop, pool, [])
    else if pool.state ≠ .running ∧ pool.queueSize = 0 then some (.exited, pool, [])
    else do
      let (task, pool) ← poolDequeueTask pool
      let pool := { pool with activeCount := pool.activeCount + 1 }
      match task with
      | some task => some (.start task, pool, [.dequeued task])
      | none => some (.finish, pool, [])
  | .start task => do
    let t ← pool.tasks[task]?
    if t.state = .pending then some (.invoke task, pool.setState task t .running, [])
    else some (.release task, pool, [])
  | .invoke task => some (.complete task, pool, [.executed task])
  | .complete task => do
    let t ← pool.tasks[task]?
    some (.callback task, pool.setState task t (if t.state = .running then .completed else .failed), [])
  | .callback task => do
    let t ← pool.tasks[task]?
    some (.release task, pool, if t.hasCallback then [.calledBack task t.state] else [])
  | .release task => some (.finish, pool, [.freed task])
  | .finish => some (.loop, { pool with activeCount := pool.activeCount - 1 }, [])
  | .exited => none

inductive FreePhase
  | notCalled
  | join (worker : Nat)
  | drain
  | done
  deriving DecidableEq, Repr

structure System (n : Nat) where
  pool : ThreadPool
  workers : Fin n → WorkerPhase
  freeing : FreePhase

/-- One step of `ak_thread_pool_free`: announce the shutdown, join a worker that
has exited, mark the pool terminated, drop a queued task, return. -/
def freeStep {n : Nat} (s : System n) : Option (FreePhase × ThreadPool × List Event) :=
  match s.freeing with
  | .notCalled => some (.join 0, { s.pool with state := .shuttingDown }, [])
  | .join i =>
    if h : i < n then (if s.workers ⟨i, h⟩ = .exited then some (.join (i + 1), s.pool, []) else none)
    else some (.drain, { s.pool with state := .terminated }, [])
  | .drain =>
    if s.pool.queueHead = none then some (.done, s.pool, [.returned])
    else do
      let (task, pool) ← poolDequeueTask s.pool
      some (.drain, pool, task.toList.map .freed)
  | .done => none

/-- Every order of the parties' steps. An allocated node lies where no node is,
and nothing uses the pool once it is freed. -/
inductive Step {n : Nat} : System n → List Event → System n → Prop
  | enqueue (s : System n) (hasLambda hasCallback : Bool) (grants : Grants) (code : Int) (pool : ThreadPool)
    (events : List Event) (hlive : s.freeing ≠ .done)
    (hfresh : ∀ a, grants.node = some a → s.pool.nodes a = none)
    (he : akThreadPoolEnqueue s.pool hasLambda hasCallback grants = some (code, pool, events)) :
    Step s events { s with pool }
  | wait (s : System n) (hlive : s.freeing ≠ .done) (hq : s.pool.queueSize = 0) (ha : s.pool.activeCount = 0) :
    Step s [.waited] s
  | worker (s : System n) (i : Fin n) (p : WorkerPhase) (pool : ThreadPool) (events : List Event)
    (hw : workerStep s.pool (s.workers i) = some (p, pool, events)) :
    Step s events { s with pool, workers := Function.update s.workers i p }
  | free (s : System n) (f : FreePhase) (pool : ThreadPool) (events : List Event)
    (hf : freeStep s = some (f, pool, events)) : Step s events { s with pool, freeing := f }

/-- A pool as `ak_thread_pool_new` leaves it; without workers there is none. -/
def akThreadPoolNew (maxWorkers maxQueueSize : Nat) (granted : Bool) : Option (System maxWorkers) :=
  if maxWorkers = 0 then none
  else if !granted then none
  else some ⟨⟨maxQueueSize, 0, none, none, 0, .running, fun _ => none, []⟩, fun _ => .loop, .notCalled⟩

end Ak24.ThreadPoolModel
