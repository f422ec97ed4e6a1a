import Ak24.Transition

namespace Ak24.TcpServerModel

structure RemoteIp where
  text : List UInt8
  fits : text.length < 46
  deriving DecidableEq

def RemoteIp.copy (ip : RemoteIp) : RemoteIp := ⟨ip.text.take 45, (List.length_take_le 45 _).trans_lt (by decide)⟩

@[simp]
theorem RemoteIp.copy_eq (ip : RemoteIp) : ip.copy = ip := by
  obtain ⟨text, fits⟩ := ip
  simp only [RemoteIp.copy, List.take_of_length_le (Nat.le_of_lt_succ fits)]

/-- The fields of `ak_tcp_server_internal_t` that stay as they are; `useTls` also
stands for an SSL context. -/
structure Config where
  maxConnections : Nat
  maxConnectionsPerIp : Nat
  connectionRateLimit : Nat
  onConnect : Bool
  useTls : Bool
  deriving DecidableEq, Repr

structure IpTracker where
  ip : RemoteIp
  activeCount : Nat
  lastConnectTime : Nat
  connectsThisSecond : Nat
  deriving DecidableEq

inductive Counter
  | accepted
  | rejectedLimit
  | rejectedQueue
  | rejectedRate
  | rejectedIpLimit
  deriving DecidableEq, Repr

structure Server where
  running : Bool
  draining : Bool
  activeConnections : Nat
  ipTrackers : List IpTracker
  connections : Counter → Nat

structure Incoming where
  socket : Nat
  ip : RemoteIp
  deriving DecidableEq

inductive Outcome
  | connectionLimit
  | ipLimit
  | rateLimit
  | refused
  | noContext
  | noTls
  | noTask
  | noLambda
  | queueFull
  | handed
  deriving DecidableEq, Repr

inductive AcceptPhase
  | top
  | poll
  | accept
  | recheck
  | limit (c : Incoming)
  | track (c : Incoming)
  | rejectIp (c : Incoming)
  | rejectRate (c : Incoming)
  | onConnect (c : Incoming)
  | context (c : Incoming)
  | countIn (c : Incoming)
  | task (c : Incoming)
  | lambda (c : Incoming)
  | enqueue (c : Incoming)
  | undo (c : Incoming) (outcome : Outcome)
  | untrack (c : Incoming) (outcome : Outcome)
  | close (c : Incoming) (outcome : Outcome)
  | exited
  deriving DecidableEq

/-- Where a `worker_task_fn` is; it releases the tracker before the connection,
whether or not the handler has detached the context. -/
inductive WorkerPhase
  | handle
  | untrack
  | leave
  | done
  deriving DecidableEq, Repr

structure Worker where
  conn : Incoming
  phase : WorkerPhase
  deriving DecidableEq

inductive ServerEvent
  | opened (socket : Nat)
  | counted (socket : Nat) (counter : Counter)
  | settled (socket : Nat) (outcome : Outcome)
  | trackerFailed
  | drained
  deriving DecidableEq, Repr

inductive PollResult
  | timeout
  | failed
  | ready
  deriving DecidableEq, Repr

structure AcceptReply where
  poll : PollResult
  accepted : Option RemoteIp
  trackerAlloc : Bool
  now : Nat
  accept : Bool
  ctxAlloc : Bool
  tlsAccept : Bool
  taskAlloc : Bool
  lambdaAlloc : Bool
  enqueued : Bool

/-- A server, its accept thread and the tasks handed to its workers; `sockets`
counts those accepted so far. -/
structure System where
  server : Server
  accept : AcceptPhase
  workers : List Worker
  sockets : Nat

def ipTrackerFind (trackers : List IpTracker) (ip : RemoteIp) : Option IpTracker := trackers.find? (·.ip = ip)

def ipTrackerStore (ip : RemoteIp) (f : IpTracker → IpTracker) : List IpTracker → List IpTracker
  | [] => []
  | t :: trackers => if t.ip = ip then f t :: trackers else t :: ipTrackerStore ip f trackers

def ipTrackerGetOrCreate (trackers : List IpTracker) (ip : RemoteIp) (alloc : Bool) :
    Option (IpTracker × List IpTracker) :=
  match ipTrackerFind trackers ip with
  | some t => some (t, trackers)
  | none => if alloc then some (⟨ip.copy, 0, 0, 0⟩, ⟨ip.copy, 0, 0, 0⟩ :: trackers) else none

def ipTrackerDecrement (server : Server) (ip : RemoteIp) : Server :=
  { server with
    ipTrackers :=
      ipTrackerStore ip (fun t => if 0 < t.activeCount then { t with activeCount := t.activeCount - 1 } else t)
        server.ipTrackers }

def limitReached (cfg : Config) (server : Server) : Bool :=
  0 < cfg.maxConnections && cfg.maxConnections ≤ server.activeConnections

def tracks (cfg : Config) : Bool := 0 < cfg.maxConnectionsPerIp || 0 < cfg.connectionRateLimit

inductive Verdict
  | ipLimited
  | rateLimited
  | admitted
  deriving DecidableEq, Repr

/-- The checks `accept_loop` makes on the tracker of an address, with what they
leave in it. -/
def checkTracker (cfg : Config) (now : Nat) (t : IpTracker) : Verdict × IpTracker :=
  if 0 < cfg.maxConnectionsPerIp ∧ cfg.maxConnectionsPerIp ≤ t.activeCount then (.ipLimited, t)
  else if 0 < cfg.connectionRateLimit then
    if t.lastConnectTime = now then
      if cfg.connectionRateLimit ≤ t.connectsThisSecond then (.rateLimited, t)
      else (.admitted, { t with connectsThisSecond := t.connectsThisSecond + 1, activeCount := t.activeCount + 1 })
    else (.admitted, { t with lastConnectTime := now, connectsThisSecond := 1, activeCount := t.activeCount + 1 })
  else (.admitted, { t with activeCount := t.activeCount + 1 })

def Server.count (server : Server) (counter : Counter) : Server :=
  { server with connections := Function.update server.connections counter (server.connections counter + 1) }

def Server.leave (server : Server) : Server :=
  { server with
    activeConnections :=
      if 0 < server.activeConnections then server.activeConnections - 1 else server.activeConnections }

def afterVerdict (c : Incoming) : Verdict → AcceptPhase
  | .ipLimited => .rejectIp c
  | .rateLimited => .rejectRate c
  | .admitted => .onConnect c

def acceptStep (cfg : Config) (s : System) (reply : AcceptReply) : Option (System × List ServerEvent) :=
  match s.accept with
  | .top => some ({ s with accept := if s.server.running then .poll else .exited }, [])
  | .recheck => some ({ s with accept := if s.server.running then .top else .exited }, [])
  | .poll =>
    match reply.poll with
    | .timeout => some ({ s with accept := .top }, [])
    | .failed => some ({ s with accept := .recheck }, [])
    | .ready => some ({ s with accept := .accept }, [])
  | .accept =>
    match reply.accepted with
    | none => some ({ s with accept := .recheck }, [])
    | some ip => some ({ s with accept := .limit ⟨s.sockets, ip⟩, sockets := s.sockets + 1 }, [.opened s.sockets])
  | .limit c =>
    if limitReached cfg s.server then
      some ({ s with accept := .close c .connectionLimit, server := s.server.count .rejectedLimit },
        [.counted c.socket .rejectedLimit])
    else some ({ s with accept := .track c }, [])
  | .track c =>
    if tracks cfg then
      match ipTrackerGetOrCreate s.server.ipTrackers c.ip reply.trackerAlloc with
      | none => some ({ s with accept := .onConnect c }, [.trackerFailed])
      | some (t, trackers) =>
        let (verdict, t) := checkTracker cfg reply.now t
        some ({ s with
          accept := afterVerdict c verdict
          server := { s.server with ipTrackers := ipTrackerStore c.ip (fun _ => t) trackers } }, [])
    else some ({ s with accept := .onConnect c }, [])
  | .rejectIp c =>
    some ({ s with accept := .close c .ipLimit, server := s.server.count .rejectedIpLimit },
      [.counted c.socket .rejectedIpLimit])
  | .rejectRate c =>
    some ({ s with accept := .close c .rateLimit, server := s.server.count .rejectedRate },
      [.counted c.socket .rejectedRate])
  | .onConnect c =>
    some ({ s with accept := if cfg.onConnect && !reply.accept then .untrack c .refused else .context c }, [])
  | .context c =>
    some ({ s with
      accept :=
        if !reply.ctxAlloc then .untrack c .noContext
        else if cfg.useTls && !reply.tlsAccept then .untrack c .noTls
        else .countIn c }, [])
  | .countIn c =>
    some ({ s with
      accept := .task c
      server := { s.server.count .accepted with activeConnections := s.server.activeConnections + 1 } },
      [.counted c.socket .accepted])
  | .task c => some ({ s with accept := if reply.taskAlloc then .lambda c else .undo c .noTask }, [])
  | .lambda c => some ({ s with accept := if reply.lambdaAlloc then .enqueue c else .undo c .noLambda }, [])
  | .enqueue c =>
    if reply.enqueued then
      some ({ s with accept := .top, workers := s.workers ++ [⟨⟨c.socket, c.ip.copy⟩, .handle⟩] },
        [.settled c.socket .handed])
    else some ({ s with accept := .undo c .queueFull }, [])
  | .undo c outcome =>
    if outcome = .queueFull then
      some ({ s with accept := .untrack c outcome, server := s.server.leave.count .rejectedQueue },
        [.counted c.socket .rejectedQueue])
    else some ({ s with accept := .untrack c outcome, server := s.server.leave }, [])
  | .untrack c outcome =>
    some ({ s with accept := .close c outcome, server := ipTrackerDecrement s.server c.ip }, [])
  | .close c outcome => some ({ s with accept := .top }, [.settled c.socket outcome])
  | .exited => none

def workerStep (server : Server) (w : Worker) : Option (Worker × Server × List ServerEvent) :=
  match w.phase with
  | .handle => some ({ w with phase := .untrack }, server, [])
  | .untrack => some ({ w with phase := .leave }, ipTrackerDecrement server w.conn.ip, [])
  | .leave =>
    some ({ w with phase := .done }, server.leave,
      if server.draining && server.leave.activeConnections = 0 then [.drained] else [])
  | .done => none

/-- Every order of the steps of the accept thread, the workers and the
application that starts and stops the server. -/
inductive Step (cfg : Config) : System → List ServerEvent → System → Prop
  | start (s : System) (hexited : s.accept = .exited) (hidle : s.server.running = false) :
    Step cfg s [] { s with accept := .top, server := { s.server with running := true } }
  | stop (s : System) (hrunning : s.server.running = true) :
    Step cfg s [] { s with server := { s.server with running := false, draining := true } }
  | drain (s : System) (hexited : s.accept = .exited) :
    Step cfg s [] { s with server := { s.server with draining := false } }
  | accept (s s' : System) (reply : AcceptReply) (events : List ServerEvent)
    (h : acceptStep cfg s reply = some (s', events)) : Step cfg s events s'
  | worker (s : System) (k : Nat) (w w' : Worker) (server : Server) (events : List ServerEvent)
    (hk : s.workers[k]? = some w) (h : workerStep s.server w = some (w', server, events)) :
    Step cfg s events { s with server, workers := s.workers.set k w' }

def akTcpServerNew : System := ⟨⟨false, false, 0, [], fun _ => 0⟩, .exited, [], 0⟩

def searching : AcceptPhase → Bool
  | .top | .poll | .accept | .recheck | .exited => true
  | _ => false

inductive AcceptMove (cfg : Config) (server : Server) (workers : List Worker) (sockets : Nat) :
    AcceptPhase → System → List ServerEvent → Prop
  | search (p p' : AcceptPhase) (hp : searching p) (hp' : searching p') :
    AcceptMove cfg server workers sockets p ⟨server, p', workers, sockets⟩ []
  | opened (ip : RemoteIp) :
    AcceptMove cfg server workers sockets .accept ⟨server, .limit ⟨sockets, ip⟩, workers, sockets + 1⟩ [.opened sockets]
  | full (c : Incoming) :
    AcceptMove cfg server workers sockets (.limit c)
      ⟨server.count .rejectedLimit, .close c .connectionLimit, workers, sockets⟩ [.counted c.socket .rejectedLimit]
  | room (c : Incoming) (h : limitReached cfg server = false) :
    AcceptMove cfg server workers sockets (.limit c) ⟨server, .track c, workers, sockets⟩ []
  | trackerless (c : Incoming) (h : tracks cfg = false) :
    AcceptMove cfg server workers sockets (.track c) ⟨server, .onConnect c, workers, sockets⟩ []
  | trackerFailed (c : Incoming) :
    AcceptMove cfg server workers sockets (.track c) ⟨server, .onConnect c, workers, sockets⟩ [.trackerFailed]
  | checked (c : Incoming) (alloc : Bool) (now : Nat) (t t' : IpTracker) (trackers : List IpTracker) (verdict : Verdict)
    (hget : ipTrackerGetOrCreate server.ipTrackers c.ip alloc = some (t, trackers))
    (hcheck : checkTracker cfg now t = (verdict, t')) :
    AcceptMove cfg server workers sockets (.track c)
      ⟨{ server with ipTrackers := ipTrackerStore c.ip (fun _ => t') trackers }, afterVerdict c verdict, workers,
        sockets⟩ []
  | rejectIp (c : Incoming) :
    AcceptMove cfg server workers sockets (.rejectIp c)
      ⟨server.count .rejectedIpLimit, .close c .ipLimit, workers, sockets⟩ [.counted c.socket .rejectedIpLimit]
  | rejectRate (c : Incoming) :
    AcceptMove cfg server workers sockets (.rejectRate c)
      ⟨server.count .rejectedRate, .close c .rateLimit, workers, sockets⟩ [.counted c.socket .rejectedRate]
  | refuse (c : Incoming) :
    AcceptMove cfg server workers sockets (.onConnect c) ⟨server, .untrack c .refused, workers, sockets⟩ []
  | onConnect (c : Incoming) :
    AcceptMove cfg server workers sockets (.onConnect c) ⟨server, .context c, workers, sockets⟩ []
  | noContext (c : Incoming) (outcome : Outcome) (h : outcome = .noContext ∨ outcome = .noTls) :
    AcceptMove cfg server workers sockets (.context c) ⟨server, .untrack c outcome, workers, sockets⟩ []
  | context (c : Incoming) :
    AcceptMove cfg server workers sockets (.context c) ⟨server, .countIn c, workers, sockets⟩ []
  | countIn (c : Incoming) :
    AcceptMove cfg server workers sockets (.countIn c)
      ⟨{ server.count .accepted with activeConnections := server.activeConnections + 1 }, .task c, workers, sockets⟩
      [.counted c.socket .accepted]
  | noTask (c : Incoming) :
    AcceptMove cfg server workers sockets (.task c) ⟨server, .undo c .noTask, workers, sockets⟩ []
  | task (c : Incoming) : AcceptMove cfg server workers sockets (.task c) ⟨server, .lambda c, workers, sockets⟩ []
  | noLambda (c : Incoming) :
    AcceptMove cfg server workers sockets (.lambda c) ⟨server, .undo c .noLambda, workers, sockets⟩ []
  | lambda (c : Incoming) : AcceptMove cfg server workers sockets (.lambda c) ⟨server, .enqueue c, workers, sockets⟩ []
  | queueFull (c : Incoming) :
    AcceptMove cfg server workers sockets (.enqueue c) ⟨server, .undo c .queueFull, workers, sockets⟩ []
  | hand (c : Incoming) :
    AcceptMove cfg server workers sockets (.enqueue c) ⟨server, .top, workers ++ [⟨c, .handle⟩], sockets⟩
      [.settled c.socket .handed]
  | undoQueued (c : Incoming) :
    AcceptMove cfg server workers sockets (.undo c .queueFull)
      ⟨server.leave.count .rejectedQueue, .untrack c .queueFull, workers, sockets⟩ [.counted c.socket .rejectedQueue]
  | undo (c : Incoming) (outcome : Outcome) (h : outcome ≠ .queueFull) :
    AcceptMove cfg server workers sockets (.undo c outcome) ⟨server.leave, .untrack c outcome, workers, sockets⟩ []
  | untrack (c : Incoming) (outcome : Outcome) :
    AcceptMove cfg server workers sockets (.untrack c outcome)
      ⟨ipTrackerDecrement server c.ip, .close c outcome, workers, sockets⟩ []
  | close (c : Incoming) (outcome : Outcome) :
    AcceptMove cfg server workers sockets (.close c outcome) ⟨server, .top, workers, sockets⟩
      [.settled c.socket outcome]

theorem acceptStep_move {cfg : Config} {server : Server} {workers : List Worker} {sockets : Nat} {p : AcceptPhase}
    {reply : AcceptReply} {s' : System} {events : List ServerEvent}
    (h : acceptStep cfg ⟨server, p, workers, sockets⟩ reply = some (s', events)) :
    AcceptMove cfg server workers sockets p s' events := by
  cases p with
  | top | recheck =>
      simp only [acceptStep] at h
      cases h
      split_ifs
      all_goals exact .search _ _ rfl rfl
  | poll =>
      simp only [acceptStep] at h
      split at h
      all_goals
        cases h
        exact .search _ _ rfl rfl
  | accept =>
      simp only [acceptStep] at h
      split at h
      · cases h
        exact .search _ _ rfl rfl
      · cases h
        exact .opened _
  | limit c =>
      simp only [acceptStep] at h
      split_ifs at h with hlimit
      · cases h
        exact .full c
      · cases h
        exact .room c (by simpa using hlimit)
  | track c =>
      simp only [acceptStep] at h
      split_ifs at h with htracks
      · split at h
        · cases h
          exact .trackerFailed c
        · rename_i t trackers hget
          cases h
          exact .checked c _ reply.now t _ trackers _ hget rfl
      · cases h
        exact .trackerless c (by simpa using htracks)
  | rejectIp c =>
      cases h
      exact .rejectIp c
  | rejectRate c =>
      cases h
      exact .rejectRate c
  | onConnect c =>
      simp only [acceptStep] at h
      cases h
      split_ifs
      · exact .refuse c
      · exact .onConnect c
  | context c =>
      simp only [acceptStep] at h
      cases h
      split_ifs
      · exact .noContext c _ (.inl rfl)
      · exact .noContext c _ (.inr rfl)
      · exact .context c
  | countIn c =>
      cases h
      exact .countIn c
  | task c =>
      simp only [acceptStep] at h
      cases h
      split_ifs
      · exact .task c
      · exact .noTask c
  | lambda c =>
      simp only [acceptStep] at h
      cases h
      split_ifs
      · exact .lambda c
      · exact .noLambda c
  | enqueue c =>
      simp only [acceptStep, RemoteIp.copy_eq] at h
      split_ifs at h
      · cases h
        exact .hand c
      · cases h
        exact .queueFull c
  | undo c outcome =>
      simp only [acceptStep] at h
      split_ifs at h with hfull
      · cases h
        subst hfull
        exact .undoQueued c
      · cases h
        exact .undo c outcome hfull
  | untrack c outcome =>
      cases h
      exact .untrack c outcome
  | close c outcome =>
      cases h
      exact .close c outcome
  | exited => cases h

end Ak24.TcpServerModel
