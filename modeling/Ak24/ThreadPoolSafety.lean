import Ak24.ThreadPoolModel
import Ak24.Chains
import Ak24.Transition

namespace Ak24.ThreadPoolSafety

open ThreadPoolModel Chains Transition

/-- The queue as the list of its nodes. Its tasks are the accepted ones from `d`
on, in the order of acceptance, and none of them has been started. -/
structure QueueOk (pool : ThreadPool) (q : List Addr) (d : Nat) : Prop where
  linked : Linked (fun a => (pool.nodes a).bind TaskNode.next) pool.queueHead q
  tail : pool.queueTail = q.getLast?
  tasks : ∀ k a, q[k]? = some a → (pool.nodes a).map TaskNode.task = some (d + k)
  size : pool.queueSize = q.length
  count : d + q.length = pool.tasks.length
  pending : ∀ t, d ≤ t → t < pool.tasks.length → (pool.tasks[t]?).map Task.state = some .pending
  limit : 0 < pool.maxQueueSize → pool.queueSize ≤ pool.maxQueueSize

section Queue

variable {pool : ThreadPool} {q : List Addr} {d : Nat}

theorem QueueOk.allocated (h : QueueOk pool q d) {a : Addr} (ha : a ∈ q) : pool.nodes a ≠ none := by
  obtain ⟨k, hk⟩ := List.mem_iff_getElem?.mp ha
  intro hn
  have := h.tasks k a hk
  simp [hn] at this

theorem QueueOk.empty_iff (h : QueueOk pool q d) : pool.queueHead = none ↔ q = [] := by
  cases q with
  | nil => exact iff_of_true h.linked rfl
  | cons a q => simp [h.linked.1]

theorem QueueOk.dequeue {a : Addr} (h : QueueOk pool (a :: q) d) :
    ∃ pool', poolDequeueTask pool = some (some d, pool') ∧ QueueOk pool' q (d + 1) ∧
      pool'.activeCount = pool.activeCount ∧ pool'.state = pool.state ∧ pool'.tasks = pool.tasks := by
  have hhead : pool.queueHead = some a := h.linked.1
  cases hn : pool.nodes a with
  | none => exact absurd hn (h.allocated (by simp))
  | some node =>
      have htask : node.task = d := by simpa [hn] using h.tasks 0 a rfl
      have hnext := h.linked.2
      simp only [hn, Option.bind_some] at hnext
      have hnodup := h.linked.nodup
      have hkeep : ∀ b ∈ q, Function.update pool.nodes a none b = pool.nodes b := by
        intro b hb
        refine Function.update_of_ne ?_ ..
        rintro rfl
        exact (List.nodup_cons.mp hnodup).1 hb
      have hlinked : Linked (fun b => (Function.update pool.nodes a none b).bind TaskNode.next) node.next q :=
        hnext.congr fun b hb => by rw [hkeep b hb]
      have hnone : node.next = none ↔ q = [] := by
        cases q with
        | nil => exact iff_of_true hnext rfl
        | cons b q => simp [hnext.1]
      have htasks : ∀ k b, q[k]? = some b →
          (Function.update pool.nodes a none b).map TaskNode.task = some (d + 1 + k) := by
        intro k b hb
        rw [hkeep b (List.mem_of_getElem? hb), h.tasks (k + 1) b (by simpa using hb)]
        congr 1
        omega
      have hsize := h.size
      have hcount := h.count
      rw [List.length_cons] at hsize hcount
      refine ⟨{ pool with
          queueHead := node.next
          queueTail := if node.next = none then none else pool.queueTail
          queueSize := pool.queueSize - 1
          nodes := Function.update pool.nodes a none }, ?_, ⟨hlinked, ?_, htasks, ?_, ?_, ?_, ?_⟩, rfl, rfl, rfl⟩
      · rw [poolDequeueTask, hhead]
        simp only [hn, htask, bind, Option.bind]
        split_ifs <;> rfl
      · have htail := h.tail
        simp only [hnone]
        split_ifs with hq
        · rw [hq]
          rfl
        · rw [htail, List.getLast?_cons, List.getLast?_eq_some_getLast hq]
          rfl
      · show pool.queueSize - 1 = q.length
        omega
      · show d + 1 + q.length = pool.tasks.length
        omega
      · exact fun t ht => h.pending t (by omega)
      · intro hl
        have := h.limit hl
        show pool.queueSize - 1 ≤ pool.maxQueueSize
        omega

theorem QueueOk.grow (h : QueueOk pool q d) {node : Addr}
    {head : Option Addr} {nodes : Addr → Option TaskNode} (hasCallback : Bool)
    (hlinked : Linked (fun a => (nodes a).bind TaskNode.next) head (q ++ [node]))
    (hold : ∀ a ∈ q, (nodes a).map TaskNode.task = (pool.nodes a).map TaskNode.task)
    (hnew : (nodes node).map TaskNode.task = some pool.tasks.length)
    (hroom : 0 < pool.maxQueueSize → pool.queueSize < pool.maxQueueSize) :
    QueueOk { pool.accept node hasCallback with queueHead := head, nodes } (q ++ [node]) d where
  linked := hlinked
  tail := by simp [ThreadPool.accept]
  tasks := by
    intro k a hk
    rcases Nat.lt_or_ge k q.length with hlt | hge
    · rw [List.getElem?_append_left hlt] at hk
      exact (hold a (List.mem_of_getElem? hk)).trans (h.tasks k a hk)
    · rw [List.getElem?_append_right hge] at hk
      obtain ⟨hk0, rfl⟩ : k - q.length = 0 ∧ node = a := by simpa [List.getElem?_singleton] using hk
      have hcount := h.count
      rw [hnew]
      congr 1
      omega
  size := by simp [ThreadPool.accept, h.size]
  count := by
    have hcount := h.count
    simp only [ThreadPool.accept, List.length_append, List.length_singleton]
    omega
  pending := by
    intro t hd ht
    simp only [ThreadPool.accept, List.length_append, List.length_singleton] at ht ⊢
    rcases Nat.lt_or_ge t pool.tasks.length with hlt | hge
    · rw [List.getElem?_append_left hlt]
      exact h.pending t hd hlt
    · obtain rfl : t = pool.tasks.length := by omega
      simp
  limit := hroom

theorem QueueOk.hang {r : List Addr} {tail node : Addr} {last : TaskNode} (h : QueueOk pool (r ++ [tail]) d)
    (hnode : pool.nodes node = none) (hlast : pool.nodes tail = some last) (hasCallback : Bool)
    (hroom : 0 < pool.maxQueueSize → pool.queueSize < pool.maxQueueSize) :
    QueueOk { pool.accept node hasCallback with
      nodes := Function.update (pool.accept node hasCallback).nodes tail (some { last with next := some node }) }
      (r ++ [tail] ++ [node]) d := by
  have hnotin : node ∉ r ++ [tail] := fun hmem => h.allocated hmem hnode
  have hne : tail ≠ node := fun heq => hnotin (by simp [heq])
  have hr : tail ∉ r := by
    have hnodup := h.linked.nodup
    rw [List.nodup_append] at hnodup
    exact fun hmem => hnodup.2.2 tail hmem tail (by simp) rfl
  have hkeep : ∀ c ∈ r, Function.update (pool.accept node hasCallback).nodes tail
      (some { last with next := some node }) c = pool.nodes c := by
    intro c hc
    have hct : c ≠ tail := fun heq => hr (heq ▸ hc)
    have hcn : c ≠ node := fun heq => hnotin (by simp [← heq, hc])
    rw [Function.update_of_ne hct]
    exact Function.update_of_ne hcn _ _
  have hnode' : Function.update (pool.accept node hasCallback).nodes tail
      (some { last with next := some node }) node = some ⟨pool.tasks.length, none⟩ := by
    rw [Function.update_of_ne hne.symm]
    exact Function.update_self ..
  refine h.grow hasCallback (h.linked.concat ?_ ?_ ?_) ?_ ?_ hroom
  · simp
  · simp [hnode']
  · intro c hc
    simp only [hkeep c hc]
  · intro a ha
    rcases List.mem_append.mp ha with hmem | hmem
    · rw [hkeep a hmem]
    · obtain rfl := List.mem_singleton.mp hmem
      simp [hlast]
  · simp [hnode']

theorem QueueOk.enqueue (h : QueueOk pool q d) (hasLambda hasCallback : Bool) {grants : Grants}
    (hfresh : ∀ a, grants.node = some a → pool.nodes a = none) :
    (∃ events, akThreadPoolEnqueue pool hasLambda hasCallback grants = some (-1, pool, events) ∧
        (events = [] ∨ events = [.discarded])) ∨
      ∃ node pool', akThreadPoolEnqueue pool hasLambda hasCallback grants =
          some (0, pool', [.enqueued pool.tasks.length]) ∧ QueueOk pool' (q ++ [node]) d ∧
        pool.state = .running ∧ pool'.state = .running ∧ pool'.activeCount = pool.activeCount ∧
        pool'.tasks = pool.tasks ++ [⟨.pending, hasCallback⟩] := by
  rw [akThreadPoolEnqueue]
  split_ifs with hl hs hm hg
  · exact .inl ⟨_, rfl, .inl rfl⟩
  · exact .inl ⟨_, rfl, .inl rfl⟩
  · exact .inl ⟨_, rfl, .inl rfl⟩
  · exact .inl ⟨_, rfl, .inl rfl⟩
  · have hrunning : pool.state = .running := not_not.mp hs
    have hroom : 0 < pool.maxQueueSize → pool.queueSize < pool.maxQueueSize := fun h0 => by omega
    cases hn : grants.node with
    | none => exact .inl ⟨_, rfl, .inr rfl⟩
    | some node =>
        have hnode := hfresh node hn
        have hnotin : node ∉ q := fun hmem => h.allocated hmem hnode
        right
        cases ht : pool.queueTail with
        | none =>
            have hq : q = [] := by simpa [ht] using h.tail.symm
            subst hq
            refine ⟨node, _, rfl, h.grow hasCallback ?_ ?_ ?_ hroom, hrunning, hrunning, rfl, rfl⟩
            · simp [Linked, ThreadPool.accept]
            · simp
            · simp [ThreadPool.accept]
        | some tail =>
            obtain ⟨r, rfl⟩ : ∃ r, q = r ++ [tail] := List.getLast?_eq_some_iff.mp (h.tail.symm.trans ht)
            have hne : tail ≠ node := fun heq => hnotin (by simp [heq])
            cases hlast : pool.nodes tail with
            | none => exact absurd hlast (h.allocated (by simp))
            | some last =>
                have hacc : (pool.accept node hasCallback).nodes tail = some last :=
                  (Function.update_of_ne hne _ _).trans hlast
                simp only [hacc, bind, Option.bind]
                exact ⟨node, _, rfl, h.hang hnode hlast hasCallback hroom, hrunning, hrunning, rfl, rfl⟩

end Queue

def enqueuedTask : Event → Option Nat
  | .enqueued task => some task
  | _ => none

def dequeuedTask : Event → Option Nat
  | .dequeued task => some task
  | _ => none

def holding (task : Nat) : WorkerPhase → Nat
  | .start t | .invoke t | .complete t | .callback t | .release t => if t = task then 1 else 0
  | _ => 0

def uninvoked (task : Nat) : WorkerPhase → Nat
  | .start t | .invoke t => if t = task then 1 else 0
  | _ => 0

def starting (task : Nat) : WorkerPhase → Nat
  | .start t => if t = task then 1 else 0
  | _ => 0

def busy : WorkerPhase → Nat
  | .loop | .exited => 0
  | _ => 1

theorem uninvoked_le_holding (task : Nat) (p : WorkerPhase) : uninvoked task p ≤ holding task p := by
  cases p <;> simp [uninvoked, holding]

theorem starting_le_holding (task : Nat) (p : WorkerPhase) : starting task p ≤ holding task p := by
  cases p <;> simp [starting, holding]

section Work

variable {n d d' t : Nat} {trace events : List Event} {tasks tasks' : List Task} {workers : Fin n → WorkerPhase}

structure WorkOk (trace : List Event) (tasks : List Task) (workers : Fin n → WorkerPhase) (d : Nat) : Prop where
  enqueued : trace.filterMap enqueuedTask = List.range tasks.length
  dequeued : trace.filterMap dequeuedTask = List.range d
  executed : ∀ t, trace.count (.executed t) + tally (uninvoked t) workers = if t < d then 1 else 0
  freed : ∀ t, trace.count (.freed t) + tally (holding t) workers = if t < d then 1 else 0
  fresh : ∀ t, tally (starting t) workers ≠ 0 → (tasks[t]?).map Task.state = some .pending

theorem WorkOk.held_lt (h : WorkOk trace tasks workers d) {i : Fin n} (hi : holding t (workers i) = 1) : t < d := by
  have hle := le_tally (holding t) workers i
  have hfreed := h.freed t
  by_contra hd
  rw [if_neg hd] at hfreed
  omega

theorem WorkOk.only_holder (h : WorkOk trace tasks workers d) {i : Fin n} (hi : holding t (workers i) = 1) :
    tally (starting t) workers = starting t (workers i) := by
  have hfreed := h.freed t
  have hholding := tally_update (holding t) workers i .loop
  have hstarting := tally_update (starting t) workers i .loop
  have hle := tally_mono (starting_le_holding t) (Function.update workers i .loop)
  have hidle : holding t .loop = 0 := rfl
  have hidle' : starting t .loop = 0 := rfl
  rw [if_pos (h.held_lt hi)] at hfreed
  omega

theorem WorkOk.move (h : WorkOk trace tasks workers d) (i : Fin n) {p : WorkerPhase}
    (hlength : tasks'.length = tasks.length) (henqueued : events.filterMap enqueuedTask = [])
    (hdequeued : List.range d ++ events.filterMap dequeuedTask = List.range d')
    (hexecuted : ∀ t, events.count (.executed t) + uninvoked t p + (if t < d then 1 else 0) =
      uninvoked t (workers i) + if t < d' then 1 else 0)
    (hfreed : ∀ t, events.count (.freed t) + holding t p + (if t < d then 1 else 0) =
      holding t (workers i) + if t < d' then 1 else 0)
    (hfresh : ∀ t, tally (starting t) (Function.update workers i p) ≠ 0 →
      (tasks'[t]?).map Task.state = some .pending) :
    WorkOk (trace ++ events) tasks' (Function.update workers i p) d' where
  enqueued := by rw [List.filterMap_append, h.enqueued, henqueued, hlength, List.append_nil]
  dequeued := by rw [List.filterMap_append, h.dequeued, hdequeued]
  executed := by
    intro t
    have htally := tally_update (uninvoked t) workers i p
    have hold := h.executed t
    have hnew := hexecuted t
    rw [List.count_append]
    omega
  freed := by
    intro t
    have htally := tally_update (holding t) workers i p
    have hold := h.freed t
    have hnew := hfreed t
    rw [List.count_append]
    omega
  fresh := hfresh

theorem WorkOk.emit (h : WorkOk trace tasks workers d)
    (henqueued : List.range tasks.length ++ events.filterMap enqueuedTask = List.range tasks'.length)
    (hdequeued : events.filterMap dequeuedTask = []) (hexecuted : ∀ t, events.count (.executed t) = 0)
    (hfreed : ∀ t, events.count (.freed t) = 0)
    (hfresh : ∀ (t : Nat) task, tasks[t]? = some task → tasks'[t]? = some task) :
    WorkOk (trace ++ events) tasks' workers d where
  enqueued := by rw [List.filterMap_append, h.enqueued, henqueued]
  dequeued := by rw [List.filterMap_append, h.dequeued, hdequeued, List.append_nil]
  executed := fun t => by rw [List.count_append, hexecuted t, Nat.add_zero, h.executed t]
  freed := fun t => by rw [List.count_append, hfreed t, Nat.add_zero, h.freed t]
  fresh := by
    intro t ht
    obtain ⟨task, htask, hpending⟩ := Option.map_eq_some_iff.mp (h.fresh t ht)
    rw [hfresh t task htask, Option.map_some, hpending]

theorem WorkOk.fresh_keep (h : WorkOk trace tasks workers d) (i : Fin n) {p : WorkerPhase}
    (hp : starting t p = 0) (ht : tally (starting t) (Function.update workers i p) ≠ 0) :
    (tasks[t]?).map Task.state = some .pending := by
  have htally := tally_update (starting t) workers i p
  exact h.fresh t (by omega)

end Work

def joinedWorkers (n : Nat) : FreePhase → Nat
  | .notCalled => 0
  | .join i => i
  | .drain | .done => n

section Control

variable {n d : Nat} {trace events : List Event} {s : System n} {q : List Addr} {pool : ThreadPool}
  {p : WorkerPhase} {i : Fin n}

structure ControlOk (trace : List Event) (s : System n) : Prop where
  active : s.pool.activeCount = tally busy s.workers
  exited : ∀ i, s.workers i = .exited → s.pool.state ≠ .running ∧ s.pool.queueSize = 0
  stopping : s.freeing ≠ .notCalled → s.pool.state ≠ .running
  joined : ∀ i : Fin n, i.val < joinedWorkers n s.freeing → s.workers i = .exited
  returned : .returned ∈ trace → s.freeing = .done ∧ trace.getLast? = some .returned

def Inv (trace : List Event) (s : System n) : Prop :=
  ∃ q d, QueueOk s.pool q d ∧ WorkOk trace s.pool.tasks s.workers d ∧ ControlOk trace s

theorem ControlOk.not_done (h : ControlOk trace s) (hi : s.workers i ≠ .exited) : s.freeing ≠ .done := by
  intro hdone
  apply hi
  apply h.joined i
  rw [hdone]
  exact i.isLt

theorem ControlOk.move (h : ControlOk trace s) (hi : s.workers i ≠ .exited)
    (hactive : pool.activeCount + busy (s.workers i) = s.pool.activeCount + busy p)
    (hstate : pool.state = s.pool.state) (hsize : pool.queueSize ≤ s.pool.queueSize)
    (hexit : p = .exited → pool.state ≠ .running ∧ pool.queueSize = 0) (hevents : .returned ∉ events) :
    ControlOk (trace ++ events) { s with pool, workers := Function.update s.workers i p } where
  active := by
    have hold := h.active
    have htally := tally_update busy s.workers i p
    show pool.activeCount = tally busy (Function.update s.workers i p)
    omega
  exited := by
    apply (Function.forall_update_iff s.workers fun _ q => q = .exited →
      pool.state ≠ .running ∧ pool.queueSize = 0).mpr
    refine ⟨hexit, fun j _ hj => ?_⟩
    obtain ⟨hstopped, hempty⟩ := h.exited j hj
    exact ⟨by rwa [hstate], by omega⟩
  stopping := fun hf => by
    show pool.state ≠ .running
    rw [hstate]
    exact h.stopping hf
  joined := by
    intro j hj
    have hold := h.joined j hj
    show Function.update s.workers i p j = .exited
    rw [Function.update_of_ne, hold]
    rintro rfl
    exact hi hold
  returned := by
    intro hr
    rcases List.mem_append.mp hr with hold | hnew
    · exact absurd (h.returned hold).1 (h.not_done hi)
    · exact absurd hnew hevents

theorem QueueOk.control (h : QueueOk pool q d) (activeCount : Nat) (state : PoolState) :
    QueueOk { pool with activeCount, state } q d :=
  ⟨h.linked, h.tail, h.tasks, h.size, h.count, h.pending, h.limit⟩

theorem QueueOk.setState (h : QueueOk pool q d) {t : Nat} (ht : t < d) (task : Task) (state : TaskState) :
    QueueOk (pool.setState t task state) q d where
  linked := h.linked
  tail := h.tail
  tasks := h.tasks
  size := h.size
  count := by rw [ThreadPool.setState, List.length_set, h.count]
  pending := by
    intro u hd hu
    rw [ThreadPool.setState, List.length_set] at hu
    rw [ThreadPool.setState, List.getElem?_set_ne (by omega)]
    exact h.pending u hd hu
  limit := h.limit

theorem WorkOk.fresh_setState (h : WorkOk trace s.pool.tasks s.workers d) {t : Nat}
    (hi : holding t (s.workers i) = 1) (hp : ∀ u, starting u p = 0) (task : Task) (state : TaskState) (u : Nat)
    (hu : tally (starting u) (Function.update s.workers i p) ≠ 0) :
    (((s.pool.setState t task state).tasks)[u]?).map Task.state = some .pending := by
  have htally := tally_update (starting u) s.workers i p
  have hpu := hp u
  have hut : u ≠ t := by
    rintro rfl
    have honly := h.only_holder hi
    omega
  rw [ThreadPool.setState, List.getElem?_set_ne hut.symm]
  exact h.fresh_keep i hpu hu

theorem WorkOk.task_some (hqueue : QueueOk pool q d) {workers : Fin n → WorkerPhase}
    (h : WorkOk trace pool.tasks workers d) {t : Nat}
    (hi : holding t (workers i) = 1) : ∃ task, pool.tasks[t]? = some task := by
  have hlt := h.held_lt hi
  have hcount := hqueue.count
  exact ⟨pool.tasks[t], List.getElem?_eq_getElem (by omega)⟩

theorem if_lt_succ (u d : Nat) :
    0 + (if d = u then 1 else 0) + (if u < d then 1 else 0) = 0 + if u < d + 1 then 1 else 0 := by
  split_ifs <;> omega

theorem Inv.dequeue {a : Addr} {pool' : ThreadPool} (hqueue : QueueOk s.pool (a :: q) d)
    (hwork : WorkOk trace s.pool.tasks s.workers d) (hcontrol : ControlOk trace s) (hp : s.workers i = .loop)
    (hqueue' : QueueOk pool' q (d + 1)) (hactive : pool'.activeCount = s.pool.activeCount)
    (hstate : pool'.state = s.pool.state) (htasks : pool'.tasks = s.pool.tasks) :
    Inv (trace ++ [.dequeued d]) { s with
      pool := { pool' with activeCount := pool'.activeCount + 1 }
      workers := Function.update s.workers i (.start d) } := by
  refine ⟨q, d + 1, hqueue'.control _ _, ?_, ?_⟩
  · refine hwork.move i (by rw [htasks]) rfl List.range_succ.symm (fun u => ?_) (fun u => ?_) fun u hu => ?_
    · rw [hp]
      exact if_lt_succ u d
    · rw [hp]
      exact if_lt_succ u d
    · rw [htasks]
      rcases eq_or_ne d u with rfl | hne
      · have hcount := hqueue.count
        rw [List.length_cons] at hcount
        exact hqueue.pending d le_rfl (by omega)
      · exact hwork.fresh_keep i (p := .start d) (if_neg hne) hu
  · refine hcontrol.move (by simp [hp]) ?_ hstate ?_ (by simp) (by simp)
    · rw [hp, hactive]
      rfl
    · have hsize := hqueue.size
      have hsize' := hqueue'.size
      rw [List.length_cons] at hsize
      show pool'.queueSize ≤ s.pool.queueSize
      omega

theorem Inv.worker {p : WorkerPhase} (h : Inv trace s)
    (hw : workerStep s.pool (s.workers i) = some (p, pool, events)) :
    Inv (trace ++ events) { s with pool, workers := Function.update s.workers i p } := by
  obtain ⟨q, d, hqueue, hwork, hcontrol⟩ := h
  have hrange : List.range d ++ [] = List.range d := List.append_nil _
  cases hp : s.workers i with
  | loop =>
      rw [hp, workerStep] at hw
      split_ifs at hw with hidle hexit
      · cases hw
        refine ⟨q, d, hqueue, ?_, ?_⟩
        · exact hwork.move i rfl rfl hrange (by simp [hp, uninvoked]) (by simp [hp, holding])
            fun t => hwork.fresh_keep i rfl
        · exact hcontrol.move (by simp [hp]) (by rw [hp]) rfl le_rfl (by simp) (by simp)
      · cases hw
        refine ⟨q, d, hqueue, ?_, ?_⟩
        · exact hwork.move i rfl rfl hrange (by simp [hp, uninvoked]) (by simp [hp, holding])
            fun t => hwork.fresh_keep i rfl
        · exact hcontrol.move (by simp [hp]) (by rw [hp]; rfl) rfl le_rfl (fun _ => hexit) (by simp)
      · have hsize : s.pool.queueSize ≠ 0 := by
          intro h0
          by_cases hr : s.pool.state = .running
          · exact hidle ⟨hr, h0⟩
          · exact hexit ⟨hr, h0⟩
        cases q with
        | nil => exact absurd hqueue.size hsize
        | cons a q =>
            obtain ⟨pool', hdequeue, hqueue', hactive, hstate, htasks⟩ := hqueue.dequeue
            simp only [hdequeue, bind, Option.bind] at hw
            cases hw
            exact Inv.dequeue hqueue hwork hcontrol hp hqueue' hactive hstate htasks
  | start t =>
      have hhold : holding t (s.workers i) = 1 := by simp [hp, holding]
      obtain ⟨task, htask⟩ := hwork.task_some hqueue hhold
      have hpending : task.state = .pending := by
        have hfresh := hwork.fresh t (by simp [hwork.only_holder hhold, hp, starting])
        simpa [htask] using hfresh
      simp only [hp, workerStep, htask, bind, Option.bind, if_pos hpending] at hw
      cases hw
      refine ⟨q, d, hqueue.setState (hwork.held_lt hhold) .., ?_, ?_⟩
      · exact hwork.move i (List.length_set ..) rfl hrange (by simp [hp, uninvoked]) (by simp [hp, holding])
          fun u => hwork.fresh_setState hhold (fun _ => rfl) _ _ u
      · exact hcontrol.move (by simp [hp]) (by rw [hp]; rfl) rfl le_rfl (by simp) (by simp)
  | invoke t =>
      rw [hp, workerStep] at hw
      cases hw
      refine ⟨q, d, hqueue, ?_, ?_⟩
      · refine hwork.move i rfl rfl hrange (fun u => ?_) (fun u => ?_) fun u => hwork.fresh_keep i rfl
        · simp [hp, uninvoked, List.count_singleton]
        · simp [hp, holding]
      · exact hcontrol.move (by simp [hp]) (by rw [hp]; rfl) rfl le_rfl (by simp) (by simp)
  | complete t =>
      have hhold : holding t (s.workers i) = 1 := by simp [hp, holding]
      obtain ⟨task, htask⟩ := hwork.task_some hqueue hhold
      simp only [hp, workerStep, htask, bind, Option.bind] at hw
      cases hw
      refine ⟨q, d, hqueue.setState (hwork.held_lt hhold) .., ?_, ?_⟩
      · exact hwork.move i (List.length_set ..) rfl hrange (by simp [hp, uninvoked]) (by simp [hp, holding])
          fun u => hwork.fresh_setState hhold (fun _ => rfl) _ _ u
      · exact hcontrol.move (by simp [hp]) (by rw [hp]; rfl) rfl le_rfl (by simp) (by simp)
  | callback t =>
      have hhold : holding t (s.workers i) = 1 := by simp [hp, holding]
      obtain ⟨task, htask⟩ := hwork.task_some hqueue hhold
      simp only [hp, workerStep, htask, bind, Option.bind] at hw
      cases hw
      refine ⟨q, d, hqueue, ?_, ?_⟩
      · refine hwork.move i rfl ?_ ?_ (fun u => ?_) (fun u => ?_) fun u => hwork.fresh_keep i rfl
        · split_ifs <;> rfl
        · split_ifs <;> simp [dequeuedTask]
        · split_ifs <;> simp [hp, uninvoked]
        · split_ifs <;> simp [hp, holding]
      · refine hcontrol.move (by simp [hp]) (by rw [hp]; rfl) rfl le_rfl (by simp) ?_
        split_ifs <;> simp
  | release t =>
      rw [hp, workerStep] at hw
      cases hw
      refine ⟨q, d, hqueue, ?_, ?_⟩
      · refine hwork.move i rfl rfl hrange (fun u => ?_) (fun u => ?_) fun u => hwork.fresh_keep i rfl
        · simp [hp, uninvoked]
        · simp [hp, holding, List.count_singleton]
      · exact hcontrol.move (by simp [hp]) (by rw [hp]; rfl) rfl le_rfl (by simp) (by simp)
  | finish =>
      rw [hp, workerStep] at hw
      cases hw
      refine ⟨q, d, hqueue.control _ _, ?_, ?_⟩
      · exact hwork.move i rfl rfl hrange (by simp [hp, uninvoked]) (by simp [hp, holding])
          fun t => hwork.fresh_keep i rfl
      · have hle := le_tally busy s.workers i
        have hactive := hcontrol.active
        rw [hp] at hle
        exact hcontrol.move (by simp [hp]) (by rw [hp]; simp [busy] at *; omega) rfl le_rfl (by simp) (by simp)
  | exited =>
      rw [hp, workerStep] at hw
      cases hw

theorem ControlOk.not_returned (h : ControlOk trace s) (hlive : s.freeing ≠ .done) : .returned ∉ trace :=
  fun hr => hlive (h.returned hr).1

theorem Inv.enqueue {hasLambda hasCallback : Bool} {grants : Grants} {code : Int} (h : Inv trace s)
    (hlive : s.freeing ≠ .done) (hfresh : ∀ a, grants.node = some a → s.pool.nodes a = none)
    (he : akThreadPoolEnqueue s.pool hasLambda hasCallback grants = some (code, pool, events)) :
    Inv (trace ++ events) { s with pool } := by
  obtain ⟨q, d, hqueue, hwork, hcontrol⟩ := h
  have hreturned := hcontrol.not_returned hlive
  rcases hqueue.enqueue hasLambda hasCallback hfresh with
    ⟨quiet, hrefused, hquiet⟩ | ⟨node, pool', haccepted, hqueue', hrunning, -, hactive, htasks⟩
  · obtain ⟨-, rfl, rfl⟩ : -1 = code ∧ s.pool = pool ∧ quiet = events := by simpa [hrefused] using he
    refine ⟨q, d, hqueue, ?_, ⟨hcontrol.active, hcontrol.exited, hcontrol.stopping, hcontrol.joined, ?_⟩⟩
    · obtain rfl | rfl := hquiet
      · exact hwork.emit (List.append_nil _) rfl (by simp) (by simp) fun _ _ => id
      · exact hwork.emit (List.append_nil _) rfl (by simp) (by simp) fun _ _ => id
    · obtain rfl | rfl := hquiet <;> simp [hreturned]
  · obtain ⟨-, rfl, rfl⟩ : 0 = code ∧ pool' = pool ∧ [.enqueued s.pool.tasks.length] = events := by
      simpa [haccepted] using he
    refine ⟨q ++ [node], d, hqueue', ?_, ⟨hactive.trans hcontrol.active, ?_, ?_, hcontrol.joined, ?_⟩⟩
    · refine hwork.emit ?_ rfl (by simp) (by simp) fun t task ht => ?_
      · simp [htasks, enqueuedTask, List.range_succ]
      · obtain ⟨hlt, -⟩ := List.getElem?_eq_some_iff.mp ht
        simpa [htasks, List.getElem?_append_left hlt] using ht
    · exact fun j hj => absurd hrunning (hcontrol.exited j hj).1
    · exact fun hf => absurd hrunning (hcontrol.stopping hf)
    · simp [hreturned]

theorem ControlOk.drained (h : ControlOk trace s) (hqueue : QueueOk s.pool q d) (hn : 0 < n)
    (hjoined : joinedWorkers n s.freeing = n) : q = [] := by
  have hexit := h.joined ⟨0, hn⟩ (by rw [hjoined]; exact hn)
  have hsize := (h.exited _ hexit).2
  rw [hqueue.size] at hsize
  exact List.eq_nil_of_length_eq_zero hsize

theorem Inv.free {f : FreePhase} (h : Inv trace s) (hn : 0 < n) (hf : freeStep s = some (f, pool, events)) :
    Inv (trace ++ events) { s with pool, freeing := f } := by
  obtain ⟨q, d, hqueue, hwork, hcontrol⟩ := h
  have hquiet : WorkOk (trace ++ []) s.pool.tasks s.workers d :=
    hwork.emit (List.append_nil _) rfl (by simp) (by simp) fun _ _ => id
  cases hfree : s.freeing with
  | notCalled =>
      have hreturned := hcontrol.not_returned (by simp [hfree])
      simp only [freeStep, hfree] at hf
      cases hf
      refine ⟨q, d, hqueue.control _ _, hquiet, ⟨hcontrol.active, ?_, ?_, ?_, ?_⟩⟩
      · exact fun j hj => ⟨by simp, (hcontrol.exited j hj).2⟩
      · simp
      · exact fun j hj => absurd hj (Nat.not_lt_zero _)
      · simp [hreturned]
  | join k =>
      have hreturned := hcontrol.not_returned (by simp [hfree])
      have hstopping := hcontrol.stopping (by simp [hfree])
      have hjoined := hcontrol.joined
      rw [hfree] at hjoined
      simp only [freeStep, hfree] at hf
      split_ifs at hf with hk hexit
      · cases hf
        refine ⟨q, d, hqueue, hquiet, ⟨hcontrol.active, hcontrol.exited, fun _ => hstopping, ?_, ?_⟩⟩
        · intro j hj
          rcases Nat.lt_succ_iff_lt_or_eq.mp hj with hlt | heq
          · exact hjoined j hlt
          · obtain rfl : j = ⟨k, hk⟩ := Fin.ext heq
            exact hexit
        · simp [hreturned]
      · cases hf
        refine ⟨q, d, hqueue.control _ _, hquiet, ⟨hcontrol.active, ?_, ?_, ?_, ?_⟩⟩
        · exact fun j hj => ⟨by simp, (hcontrol.exited j hj).2⟩
        · simp
        · exact fun j _ => hjoined j (j.isLt.trans_le (not_lt.mp hk))
        · simp [hreturned]
  | drain =>
      have hreturned := hcontrol.not_returned (by simp [hfree])
      have hnil : q = [] := hcontrol.drained hqueue hn (by rw [hfree]; rfl)
      simp only [freeStep, hfree, if_pos (hqueue.empty_iff.mpr hnil)] at hf
      cases hf
      refine ⟨q, d, hqueue, ?_, ⟨hcontrol.active, hcontrol.exited, ?_, ?_, ?_⟩⟩
      · exact hwork.emit (List.append_nil _) rfl (by simp) (by simp) fun _ _ => id
      · exact fun _ => hcontrol.stopping (by simp [hfree])
      · exact fun j _ => hcontrol.joined j (by rw [hfree]; exact j.isLt)
      · simp
  | done =>
      simp only [freeStep, hfree] at hf
      cases hf

theorem Inv.start {maxQueueSize : Nat} {granted : Bool} (h : akThreadPoolNew n maxQueueSize granted = some s) :
    Inv [] s := by
  rw [akThreadPoolNew] at h
  split_ifs at h
  cases h
  refine ⟨[], 0, ?_, ?_, ?_⟩
  · exact ⟨rfl, rfl, by simp, rfl, rfl, by simp, by simp⟩
  · refine ⟨rfl, rfl, fun t => ?_, fun t => ?_, fun t ht => ?_⟩
    · simp [tally, uninvoked]
    · simp [tally, holding]
    · simp [tally, starting] at ht
  · exact ⟨by simp [tally, busy], by simp, by simp, by simp [joinedWorkers], by simp⟩

theorem Inv.step {s' : System n} (h : Inv trace s) (hn : 0 < n) (hs : Step s events s') : Inv (trace ++ events) s' := by
  cases hs with
  | enqueue hasLambda hasCallback grants code pool _ hlive hfresh he => exact h.enqueue hlive hfresh he
  | wait hlive =>
      obtain ⟨q, d, hqueue, hwork, hcontrol⟩ := h
      refine ⟨q, d, hqueue, ?_, ⟨hcontrol.active, hcontrol.exited, hcontrol.stopping, hcontrol.joined, ?_⟩⟩
      · exact hwork.emit (List.append_nil _) rfl (by simp) (by simp) fun _ _ => id
      · simp [hcontrol.not_returned hlive]
  | worker i p pool _ hw => exact h.worker hw
  | free f pool _ hf => exact h.free hn hf

theorem Inv.worker_enabled (h : Inv trace s) (hi : s.workers i ≠ .exited) :
    ∃ r, workerStep s.pool (s.workers i) = some r := by
  obtain ⟨q, d, hqueue, hwork, -⟩ := h
  cases hp : s.workers i with
  | loop =>
      rw [workerStep]
      split_ifs with hidle hexit
      · exact ⟨_, rfl⟩
      · exact ⟨_, rfl⟩
      · cases q with
        | nil =>
            rw [poolDequeueTask, hqueue.empty_iff.mpr rfl]
            exact ⟨_, rfl⟩
        | cons a q =>
            obtain ⟨pool', hdequeue, -⟩ := hqueue.dequeue
            rw [hdequeue]
            exact ⟨_, rfl⟩
  | start t =>
      obtain ⟨task, htask⟩ := hwork.task_some hqueue (t := t) (i := i) (by simp [hp, holding])
      simp only [workerStep, htask, bind, Option.bind]
      split_ifs
      · exact ⟨_, rfl⟩
      · exact ⟨_, rfl⟩
  | complete t | callback t =>
      obtain ⟨task, htask⟩ := hwork.task_some hqueue (t := t) (i := i) (by simp [hp, holding])
      simp only [workerStep, htask, bind, Option.bind]
      exact ⟨_, rfl⟩
  | invoke t | release t | finish => exact ⟨_, rfl⟩
  | exited => exact absurd hp hi

end Control

theorem count_enqueued (trace : List Event) (t : Nat) :
    trace.count (.enqueued t) = (trace.filterMap enqueuedTask).count t := by
  rw [List.count_filterMap, List.count]
  refine List.countP_congr fun e _ => ?_
  cases e <;> simp [enqueuedTask]

theorem count_dequeued (trace : List Event) (t : Nat) :
    trace.count (.dequeued t) = (trace.filterMap dequeuedTask).count t := by
  rw [List.count_filterMap, List.count]
  refine List.countP_congr fun e _ => ?_
  cases e <;> simp [dequeuedTask]

theorem count_range (k t : Nat) : (List.range k).count t = if t < k then 1 else 0 := by
  rw [List.nodup_range.count]
  simp only [List.mem_range]

section Runs

variable {n maxQueueSize : Nat} {granted : Bool} {s₀ s : System n} {trace : List Event}

theorem workers_pos (hnew : akThreadPoolNew n maxQueueSize granted = some s₀) : 0 < n := by
  rw [akThreadPoolNew] at hnew
  split_ifs at hnew with hn
  exact Nat.pos_of_ne_zero hn

theorem run_inv (hnew : akThreadPoolNew n maxQueueSize granted = some s₀) (hrun : Run Step s₀ trace s) : Inv trace s :=
  hrun.invariant (Inv.start hnew) fun _ _ _ _ h hs => h.step (workers_pos hnew) hs

/-- No task is handled twice, and each is handled in the order enqueued,
dequeued, executed, freed. -/
theorem Inv.counts (h : Inv trace s) (t : Nat) :
    trace.count (.freed t) ≤ trace.count (.executed t) ∧ trace.count (.executed t) ≤ trace.count (.dequeued t) ∧
      trace.count (.dequeued t) ≤ trace.count (.enqueued t) ∧ trace.count (.enqueued t) ≤ 1 := by
  obtain ⟨q, d, hqueue, hwork, -⟩ := h
  have hexecuted := hwork.executed t
  have hfreed := hwork.freed t
  have hle := tally_mono (uninvoked_le_holding t) s.workers
  have hcount := hqueue.count
  rw [count_dequeued, count_enqueued, hwork.dequeued, hwork.enqueued, count_range, count_range]
  split_ifs at * <;> omega

theorem Inv.returned_counts (h : Inv trace s) (hn : 0 < n) (hreturned : .returned ∈ trace) :
    trace.getLast? = some .returned ∧ trace.filterMap dequeuedTask = trace.filterMap enqueuedTask ∧
      ∀ t, .enqueued t ∈ trace →
        trace.count (.dequeued t) = 1 ∧ trace.count (.executed t) = 1 ∧ trace.count (.freed t) = 1 := by
  obtain ⟨q, d, hqueue, hwork, hcontrol⟩ := h
  obtain ⟨hdone, hlast⟩ := hcontrol.returned hreturned
  have hexited : ∀ i, s.workers i = .exited := fun i => hcontrol.joined i (by rw [hdone]; exact i.isLt)
  have hcount := hqueue.count
  rw [hcontrol.drained hqueue hn (by rw [hdone]; rfl), List.length_nil, Nat.add_zero] at hcount
  refine ⟨hlast, by rw [hwork.dequeued, hwork.enqueued, hcount], fun t ht => ?_⟩
  have hlt : t < d := by
    have hmem : t ∈ trace.filterMap enqueuedTask := List.mem_filterMap.mpr ⟨_, ht, rfl⟩
    rwa [hwork.enqueued, List.mem_range, ← hcount] at hmem
  have hexecuted := hwork.executed t
  have hfreed := hwork.freed t
  rw [tally_eq_zero fun i => by rw [hexited i]; rfl, if_pos hlt] at hexecuted hfreed
  refine ⟨?_, hexecuted, hfreed⟩
  rw [count_dequeued, hwork.dequeued, count_range, if_pos hlt]

/-- Every accepted task is dequeued in the order of acceptance, run and freed at most
once, and exactly once when the pool has been freed. -/
theorem accepted_tasks_run_once (hnew : akThreadPoolNew n maxQueueSize granted = some s₀)
    (hrun : Run Step s₀ trace s) :
    trace.filterMap dequeuedTask <+: trace.filterMap enqueuedTask ∧
    (∀ t, trace.count (.freed t) ≤ trace.count (.executed t) ∧
      trace.count (.executed t) ≤ trace.count (.dequeued t) ∧
      trace.count (.dequeued t) ≤ trace.count (.enqueued t) ∧ trace.count (.enqueued t) ≤ 1) ∧
    (.returned ∈ trace → trace.getLast? = some .returned ∧
      trace.filterMap dequeuedTask = trace.filterMap enqueuedTask ∧
      ∀ t, .enqueued t ∈ trace →
        trace.count (.dequeued t) = 1 ∧ trace.count (.executed t) = 1 ∧ trace.count (.freed t) = 1) ∧
    (∃ q, Linked (fun a => (s.pool.nodes a).bind TaskNode.next) s.pool.queueHead q ∧ s.pool.queueSize = q.length) ∧
    (0 < s.pool.maxQueueSize → s.pool.queueSize ≤ s.pool.maxQueueSize) ∧
    s.pool.activeCount = (Finset.univ.filter fun i => busy (s.workers i) = 1).card ∧
    ∀ i, s.workers i ≠ .exited → ∃ r, workerStep s.pool (s.workers i) = some r := by
  have h := run_inv hnew hrun
  refine ⟨?_, h.counts, h.returned_counts (workers_pos hnew), ?_, ?_, ?_, fun i => h.worker_enabled⟩
  all_goals obtain ⟨q, d, hqueue, hwork, hcontrol⟩ := h
  · rw [hwork.dequeued, hwork.enqueued, ← hqueue.count, List.range_add]
    exact List.prefix_append _ _
  · exact ⟨q, hqueue.linked, hqueue.size⟩
  · exact hqueue.limit
  · rw [hcontrol.active, tally, Finset.card_filter]
    refine Finset.sum_congr rfl fun i _ => ?_
    cases s.workers i <;> rfl

theorem one_task_run : ∃ s₀ s : System 1, akThreadPoolNew 1 4 true = some s₀ ∧
    Run Step s₀ [.enqueued 0, .dequeued 0, .executed 0, .calledBack 0 .completed, .freed 0, .returned] s ∧
    s.pool.activeCount = (Finset.univ.filter fun i => busy (s.workers i) = 1).card := by
  have hnew : akThreadPoolNew 1 4 true =
      some ⟨⟨4, 0, none, none, 0, .running, fun _ => none, []⟩, fun _ => .loop, .notCalled⟩ := rfl
  have r₁ := Run.next .start
    (Step.enqueue (n := 1) ⟨⟨4, 0, none, none, 0, .running, fun _ => none, []⟩, fun _ => .loop, .notCalled⟩
      true true ⟨true, some 0⟩ _ _ _ (by decide) (by simp) rfl)
  have r₂ := r₁.next (.free _ _ _ _ rfl)
  have r₃ := r₂.next (.worker _ 0 _ _ _ rfl)
  have r₄ := r₃.next (.worker _ 0 _ _ _ rfl)
  have r₅ := r₄.next (.worker _ 0 _ _ _ rfl)
  have r₆ := r₅.next (.worker _ 0 _ _ _ rfl)
  have r₇ := r₆.next (.worker _ 0 _ _ _ rfl)
  have r₈ := r₇.next (.worker _ 0 _ _ _ rfl)
  have r₉ := r₈.next (.worker _ 0 _ _ _ rfl)
  have r₁₀ := r₉.next (.worker _ 0 _ _ _ rfl)
  have r₁₁ := r₁₀.next (.free _ _ _ _ rfl)
  have r₁₂ := r₁₁.next (.free _ _ _ _ rfl)
  have r₁₃ := r₁₂.next (.free _ _ _ _ rfl)
  exact ⟨_, _, hnew, r₁₃, (accepted_tasks_run_once hnew r₁₃).2.2.2.2.2.1⟩

end Runs

end Ak24.ThreadPoolSafety
