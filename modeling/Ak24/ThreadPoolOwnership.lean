import Ak24.ThreadPoolWakeup

namespace Ak24.ThreadPoolOwnership

open ThreadPoolModel hiding akThreadPoolEnqueue

/-- An `ak_lambda_t`, with the address of its block; `ctxFree` says that it has a
function to free what it has captured. -/
structure Lambda where
  addr : Addr
  capturedCtx : Option Nat
  ctxFree : Bool
  deriving DecidableEq, Repr

structure TaskBlock where
  taskLambda : Lambda
  completionCallback : Option Lambda
  state : TaskState
  deriving DecidableEq, Repr

inductive Effect
  | ctxFreed (ctx : Nat)
  | lambdaFreed (addr : Addr)
  | mutexDestroyed
  | taskFreed
  | workerTaskFreed
  | tcpCtxFreed
  deriving DecidableEq, Repr

/-- The answers of the allocator and of `ak_mutex_init`; a granted node comes
with its address. -/
structure Answers where
  task : Bool
  mutex : Bool
  node : Option Addr
  deriving DecidableEq, Repr

def akLambdaFree : Option Lambda → List Effect
  | none => []
  | some lambda =>
    (if lambda.ctxFree then lambda.capturedCtx.toList.map .ctxFreed else []) ++ [.lambdaFreed lambda.addr]

def taskNew (taskLambda completionCallback : Option Lambda) (answers : Answers) : Option TaskBlock × List Effect :=
  match taskLambda with
  | none => (none, [])
  | some lambda =>
    if !answers.task then (none, [])
    else if !answers.mutex then (none, [.taskFreed])
    else (some ⟨lambda, completionCallback, .pending⟩, [])

def taskFree : Option TaskBlock → List Effect
  | none => []
  | some task =>
    akLambdaFree (some task.taskLambda) ++ akLambdaFree task.completionCallback ++ [.mutexDestroyed, .taskFreed]

/-- `none` is an access through a dangling pointer. -/
def akThreadPoolEnqueue (pool : Option ThreadPool) (taskLambda completionCallback : Option Lambda) (answers : Answers) :
    Option (Int × Option ThreadPool × List Effect) :=
  match pool with
  | none => some (-1, none, [])
  | some pool =>
    if taskLambda = none then some (-1, some pool, [])
    else if pool.state ≠ .running then some (-1, some pool, [])
    else if 0 < pool.maxQueueSize ∧ pool.maxQueueSize ≤ pool.queueSize then some (-1, some pool, [])
    else
      match taskNew taskLambda completionCallback answers with
      | (none, effects) => some (-1, some pool, effects)
      | (some task, effects) =>
        match answers.node with
        | none => some (-1, some pool, effects ++ taskFree (some task))
        | some node =>
          let accepted := pool.accept node completionCallback.isSome
          match pool.queueTail with
          | some tail => do
            let last ← accepted.nodes tail
            let nodes := Function.update accepted.nodes tail (some { last with next := some node })
            some (0, some { accepted with nodes }, effects)
          | none => some (0, some { accepted with queueHead := some node }, effects)

def acceptLoopRelease (workerLambda : Lambda) : List Effect :=
  akLambdaFree (some workerLambda) ++ [.workerTaskFreed, .tcpCtxFreed]

/-- The caller still owns what it has passed: neither lambda is freed, the queue
is as it was, and a caller that now frees the lambda frees it once. -/
structure KeepsOwnership (pool pool' : Option ThreadPool) (taskLambda completionCallback : Option Lambda)
    (effects : List Effect) : Prop where
  task : ∀ lambda, taskLambda = some lambda → .lambdaFreed lambda.addr ∉ effects
  callback : ∀ lambda, completionCallback = some lambda → .lambdaFreed lambda.addr ∉ effects
  queue : pool' = pool
  caller : ∀ lambda, taskLambda = some lambda →
    (effects ++ acceptLoopRelease lambda).count (.lambdaFreed lambda.addr) = 1

def GetsTask (pool : Option ThreadPool) (taskLambda : Option Lambda) (answers : Answers) : Prop :=
  ∃ p lambda, pool = some p ∧ taskLambda = some lambda ∧ p.state = .running ∧
    ¬(0 < p.maxQueueSize ∧ p.maxQueueSize ≤ p.queueSize) ∧ answers.task = true ∧ answers.mutex = true

section Calls

variable {pool : ThreadPool} {taskLambda completionCallback : Option Lambda} {answers : Answers} {code : Int}
  {effects : List Effect}

theorem taskNew_cases (lambda : Lambda) (completionCallback : Option Lambda) (answers : Answers) :
    ((answers.task && answers.mutex) = false ∧
        ∃ effects, taskNew (some lambda) completionCallback answers = (none, effects) ∧
          ∀ addr, .lambdaFreed addr ∉ effects) ∨
      ((answers.task && answers.mutex) = true ∧
        taskNew (some lambda) completionCallback answers = (some ⟨lambda, completionCallback, .pending⟩, [])) := by
  obtain ⟨task, mutex, node⟩ := answers
  cases task with
  | false => exact .inl ⟨rfl, _, rfl, by simp⟩
  | true =>
      cases mutex with
      | false => exact .inl ⟨rfl, _, rfl, by simp⟩
      | true => exact .inr ⟨rfl, rfl⟩

/-- Forgetting the lambdas and what is released leaves the enqueue of the pool. -/
theorem akThreadPoolEnqueue_model (pool : ThreadPool) (taskLambda completionCallback : Option Lambda)
    (answers : Answers) :
    (akThreadPoolEnqueue (some pool) taskLambda completionCallback answers).map (fun r => (r.1, r.2.1)) =
      (ThreadPoolModel.akThreadPoolEnqueue pool taskLambda.isSome completionCallback.isSome
        ⟨answers.task && answers.mutex, answers.node⟩).map fun r => (r.1, some r.2.1) := by
  cases taskLambda with
  | none => rfl
  | some lambda =>
      simp only [akThreadPoolEnqueue, ThreadPoolModel.akThreadPoolEnqueue, reduceCtorEq, ↓reduceIte, Option.isSome_some,
        Bool.not_true, Bool.false_eq_true]
      split_ifs with hstate hfull hgranted
      · rfl
      · rfl
      · obtain ⟨-, effects, hnew, -⟩ | ⟨hgranted', -⟩ :=
          taskNew_cases lambda completionCallback answers
        · simp only [hnew]
          rfl
        · simp [hgranted'] at hgranted
      · obtain ⟨hgranted', -⟩ | ⟨-, hnew⟩ :=
          taskNew_cases lambda completionCallback answers
        · simp [hgranted'] at hgranted
        · simp only [hnew]
          cases answers.node with
          | none => rfl
          | some node =>
              cases pool.queueTail with
              | none => rfl
              | some tail =>
                  simp only
                  cases (pool.accept node completionCallback.isSome).nodes tail <;> rfl

theorem enqueue_unchanged {pool' : Option ThreadPool}
    (h : akThreadPoolEnqueue (some pool) taskLambda completionCallback answers = some (code, pool', effects))
    (hcode : code ≠ 0) : pool' = some pool := by
  have hmodel := akThreadPoolEnqueue_model pool taskLambda completionCallback answers
  rw [h, Option.map_some, eq_comm, Option.map_eq_some_iff] at hmodel
  obtain ⟨⟨code', pool'', events⟩, henqueue, heq⟩ := hmodel
  cases heq
  obtain ⟨-, hsame⟩ | ⟨hzero, -⟩ := ThreadPoolWakeup.enqueue_counters henqueue
  · rw [hsame]
  · exact absurd hzero hcode

theorem enqueue_unfreed {pool' : Option ThreadPool}
    (h : akThreadPoolEnqueue (some pool) taskLambda completionCallback answers = some (code, pool', effects))
    (hnode : GetsTask (some pool) taskLambda answers → answers.node ≠ none) (addr : Addr) :
    .lambdaFreed addr ∉ effects := by
  cases taskLambda with
  | none =>
      cases h
      simp
  | some lambda =>
      simp only [akThreadPoolEnqueue, reduceCtorEq, ↓reduceIte] at h
      split_ifs at h with hstate hfull
      · cases h
        simp
      · cases h
        simp
      · obtain ⟨-, freed, hnew, hfreed⟩ | ⟨hgranted, hnew⟩ := taskNew_cases lambda completionCallback answers
        · simp only [hnew] at h
          cases h
          exact hfreed addr
        · simp only [Bool.and_eq_true] at hgranted
          obtain ⟨node, hgiven⟩ := Option.ne_none_iff_exists'.mp
            (hnode ⟨pool, lambda, rfl, rfl, not_not.mp hstate, hfull, hgranted⟩)
          simp only [hnew, hgiven] at h
          split at h
          · simp only [bind, Option.bind_eq_some_iff] at h
            obtain ⟨last, -, h⟩ := h
            cases h
            simp
          · cases h
            simp

theorem abandoned_enqueue (completionCallback : Option Lambda) (hgets : GetsTask (some pool) taskLambda answers) (hnode : answers.node = none) :
    ∃ lambda, taskLambda = some lambda ∧
      akThreadPoolEnqueue (some pool) taskLambda completionCallback answers =
        some (-1, some pool, taskFree (some ⟨lambda, completionCallback, .pending⟩)) := by
  obtain ⟨p, lambda, hp, rfl, hrunning, hroom, htask, hmutex⟩ := hgets
  cases hp
  refine ⟨lambda, rfl, ?_⟩
  simp [akThreadPoolEnqueue, taskNew, hrunning, hroom, htask, hmutex, hnode]

theorem lambdaFreed_taskFree (lambda : Lambda) (completionCallback : Option Lambda) (state : TaskState) :
    .lambdaFreed lambda.addr ∈ taskFree (some ⟨lambda, completionCallback, state⟩) := by
  simp [taskFree, akLambdaFree]

theorem count_akLambdaFree (lambda : Lambda) : (akLambdaFree (some lambda)).count (.lambdaFreed lambda.addr) = 1 := by
  rw [akLambdaFree, List.count_append, List.count_eq_zero_of_not_mem]
  · simp
  · split_ifs <;> simp

theorem count_acceptLoopRelease (lambda : Lambda) :
    (acceptLoopRelease lambda).count (.lambdaFreed lambda.addr) = 1 := by
  rw [acceptLoopRelease, List.count_append, count_akLambdaFree]
  rfl

end Calls

/-- A refused enqueue keeps ownership with the caller exactly where the task it
has built is given a node. -/
theorem refused_enqueue (pool : Option ThreadPool) (taskLambda completionCallback : Option Lambda)
    (answers : Answers) :
    (∀ code pool' effects, akThreadPoolEnqueue pool taskLambda completionCallback answers = some (code, pool', effects) →
      code = -1 → KeepsOwnership pool pool' taskLambda completionCallback effects) ↔
      (GetsTask pool taskLambda answers → answers.node ≠ none) := by
  constructor
  · intro hkeeps hgets hnode
    obtain ⟨p, -, rfl, -⟩ := id hgets
    obtain ⟨lambda, rfl, henqueue⟩ := abandoned_enqueue completionCallback hgets hnode
    exact (hkeeps _ _ _ henqueue rfl).task lambda rfl (lambdaFreed_taskFree lambda completionCallback .pending)
  · rintro hnode code pool' effects henqueue rfl
    cases pool with
    | none =>
        cases henqueue
        exact ⟨by simp, by simp, rfl, fun lambda _ => by simpa using count_acceptLoopRelease lambda⟩
    | some p =>
        have hunfreed := enqueue_unfreed henqueue hnode
        refine ⟨fun lambda _ => hunfreed lambda.addr, fun lambda _ => hunfreed lambda.addr,
          enqueue_unchanged henqueue (by decide), fun lambda _ => ?_⟩
        rw [List.count_append, List.count_eq_zero_of_not_mem (hunfreed lambda.addr), count_acceptLoopRelease]

/-- A new pool, a task with a callback, and no memory for the node. -/
theorem lambda_freed_by_refused_enqueue : ¬∀ (pool : Option ThreadPool) (taskLambda completionCallback : Option Lambda)
    (answers : Answers) (code : Int) (pool' : Option ThreadPool) (effects : List Effect),
    akThreadPoolEnqueue pool taskLambda completionCallback answers = some (code, pool', effects) → code = -1 →
      KeepsOwnership pool pool' taskLambda completionCallback effects := by
  intro hkeeps
  have hkept := hkeeps (some ⟨4, 0, none, none, 0, .running, fun _ => none, []⟩) (some ⟨0, none, false⟩)
    (some ⟨1, none, false⟩) ⟨true, true, none⟩ _ _ _ rfl rfl
  exact hkept.task _ rfl (by decide)

end Ak24.ThreadPoolOwnership
