import Ak24.TcpCalls

namespace Ak24.TcpClientModel

open TcpCalls

inductive ClientState
  | disconnected
  | connecting
  | connected
  | reconnecting
  deriving DecidableEq, Repr

structure Opened where
  fd : Nat
  ssl : Option Nat
  deriving DecidableEq, Repr

/-- The fields of `ak_tcp_client_internal_t` that its functions decide on;
`reconnectThread` is the handle of the last reconnect thread created. -/
structure Client where
  state : ClientState
  ctx : Option Nat
  autoReconnect : Bool
  reconnectMaxAttempts : Nat
  currentAttempt : Nat
  reconnectThread : Option Nat
  reconnectThreadRunning : Bool
  stopReconnect : Bool
  deriving DecidableEq, Repr

/-- The client and the contexts made for it so far, numbered in the order in
which they are made; a freed one is `none`. -/
structure World where
  client : Client
  conns : Nat → Option Conn
  made : Nat

/-- The callers of `stop_reconnect_thread`; `ak_tcp_client_free` calls
`ak_tcp_client_disconnect` first. -/
inductive StopCaller
  | setAutoReconnect
  | disconnect
  | free
  deriving DecidableEq, Repr

inductive AppPhase
  | idle
  | connect
  | attempt
  | publish (opened : Opened)
  | connected
  | failed
  | settle
  | start (connecting : Bool)
  | spawn
  | setAutoReconnect (enable : Bool)
  | stop (caller : StopCaller)
  | join (caller : StopCaller)
  | reset (caller : StopCaller)
  | farewell (caller : StopCaller)
  | release
  | released
  | getCtx (isRecv : Bool) (call : CallPhase)
  | call (isRecv : Bool) (ctx : Nat) (call : CallPhase)
  | checkAlive (ctx : Nat)
  | lost
  deriving DecidableEq, Repr

/-- Where a reconnect thread is. In `giveUp` it has cleared
`reconnect_thread_running` after its last attempt and has `on_disconnect` still
to look at. -/
inductive LoopPhase
  | top
  | delay
  | waiting
  | retry
  | attempt
  | publish (opened : Opened)
  | connected
  | clear
  | failed
  | backoff
  | giveUp
  | exited
  deriving DecidableEq, Repr

inductive ClientEvent
  | returnedOk
  | refused
  | deferred
  | stopped (caller : StopCaller)
  | spawnFailed
  | touchedCtx (ctx : Nat)
  | freedCtx (ctx : Nat)
  | replacedCtx (ctx : Nat)
  | touchedInternal
  | freedInternal
  deriving DecidableEq, Repr

structure ClientReply where
  opened : Option Opened
  call : Reply

def clientDoConnect (w : World) (opened : Opened) : World :=
  { client := { w.client with ctx := some w.made, state := .connected, currentAttempt := 0 }
    conns := fun c =>
      if c = w.made then some { akTcpCtxNew opened.fd with ssl := opened.ssl }
      else if w.client.ctx = some c then none else w.conns c
    made := w.made + 1 }

def disconnectSection (w : World) : World :=
  { w with
    client := { w.client with autoReconnect := false, ctx := none, state := .disconnected }
    conns := fun c => if w.client.ctx = some c then none else w.conns c }

/-- A context that is freed reads as a dead one: what a call makes of such
memory is not modelled. -/
def World.conn (w : World) (ctx : Nat) : Conn := (w.conns ctx).getD ⟨false, none, none, 0, 0⟩

def World.setConn (w : World) (ctx : Nat) (conn : Conn) : World :=
  { w with conns := Function.update w.conns ctx ((w.conns ctx).map fun _ => conn) }

def touches (ctx : Nat) (events : List Event) : List ClientEvent :=
  (events.filter (· = .touched)).map fun _ => .touchedCtx ctx

def afterCall (isRecv : Bool) (ctx : Nat) : Returned → AppPhase
  | .count n _ => if isRecv ∧ n = 0 then .lost else if isRecv ∧ n < 0 then .checkAlive ctx else .idle
  | .buffer _ => .idle

def afterStop : StopCaller → AppPhase
  | .setAutoReconnect => .idle
  | .disconnect => .reset .disconnect
  | .free => .reset .free

def appStep (w : World) (reply : ClientReply) : AppPhase → Option (AppPhase × World × List ClientEvent)
  | .connect =>
    match w.client.state with
    | .connected => some (.idle, w, [.returnedOk])
    | .connecting | .reconnecting => some (.idle, w, [.refused])
    | .disconnected =>
      some (.attempt, { w with client := { w.client with state := .connecting, currentAttempt := 1 } }, [])
  | .attempt =>
    match reply.opened with
    | some opened => some (.publish opened, w, [])
    | none => some (.failed, w, [])
  | .publish opened => some (.connected, clientDoConnect w opened, w.client.ctx.toList.map .freedCtx)
  | .connected => some (.idle, w, [.returnedOk])
  | .failed => some (if w.client.autoReconnect then .start true else .settle, w, [])
  | .settle => some (.idle, { w with client := { w.client with state := .disconnected } }, [])
  | .start connecting =>
    if w.client.reconnectThreadRunning then some (.idle, w, if connecting then [.deferred] else [])
    else
      some (.spawn,
        { w with
          client :=
            { w.client with reconnectThreadRunning := true, stopReconnect := false, state := .reconnecting } }, [])
  | .setAutoReconnect enable =>
    some (if enable then .idle else .stop .setAutoReconnect,
      { w with client := { w.client with autoReconnect := enable } }, [])
  | .stop caller =>
    if !w.client.reconnectThreadRunning then some (afterStop caller, w, [])
    else some (.join caller, { w with client := { w.client with stopReconnect := true } }, [.stopped caller])
  | .reset caller => some (.farewell caller, disconnectSection w, w.client.ctx.toList.map .freedCtx)
  | .farewell caller => some (if caller = .free then .release else .idle, w, [])
  | .getCtx isRecv call =>
    match w.client.ctx with
    | none => some (.idle, w, [])
    | some ctx => some (.call isRecv ctx call, w, [])
  | .call isRecv ctx (.returned r) => some (afterCall isRecv ctx r, w, [])
  | .call isRecv ctx p => do
    let (p, conn, events) ← callStep (w.conn ctx) reply.call p
    some (.call isRecv ctx p, w.setConn ctx conn, touches ctx events)
  | .checkAlive ctx =>
    let (alive, conn, events) := akTcpIsAlive (w.conn ctx) reply.call.peerClosed
    some (if alive then .idle else .lost, w.setConn ctx conn, touches ctx events)
  | .lost => some (if w.client.autoReconnect then .start false else .idle, w, [])
  | .idle | .spawn | .join _ | .release | .released => none

def loopStep (w : World) (reply : ClientReply) : LoopPhase → Option (LoopPhase × World × List ClientEvent)
  | .top =>
    if w.client.stopReconnect ∨ w.client.state = .connected then
      some (.exited, { w with client := { w.client with reconnectThreadRunning := false } }, [.touchedInternal])
    else if 0 < w.client.reconnectMaxAttempts ∧ w.client.reconnectMaxAttempts ≤ w.client.currentAttempt then
      some (.giveUp,
        { w with client := { w.client with state := .disconnected, reconnectThreadRunning := false } },
        [.touchedInternal])
    else some (.delay, w, [.touchedInternal])
  | .delay =>
    if w.client.stopReconnect then
      some (.exited, { w with client := { w.client with reconnectThreadRunning := false } }, [.touchedInternal])
    else some (.waiting, w, [.touchedInternal])
  | .waiting =>
    if w.client.stopReconnect then
      some (.exited, { w with client := { w.client with reconnectThreadRunning := false } }, [.touchedInternal])
    else some (.retry, w, [.touchedInternal])
  | .retry =>
    some (.attempt,
      { w with client := { w.client with state := .reconnecting, currentAttempt := w.client.currentAttempt + 1 } },
      [.touchedInternal])
  | .attempt =>
    match reply.opened with
    | some opened => some (.publish opened, w, [.touchedInternal])
    | none => some (.failed, w, [.touchedInternal])
  | .publish opened =>
    some (.connected, clientDoConnect w opened, .touchedInternal :: w.client.ctx.toList.map .replacedCtx)
  | .connected => some (.clear, w, [.touchedInternal])
  | .clear => some (.exited, { w with client := { w.client with reconnectThreadRunning := false } }, [.touchedInternal])
  | .failed => some (.backoff, w, [.touchedInternal])
  | .backoff => some (.top, w, [.touchedInternal])
  | .giveUp => some (.exited, w, [.touchedInternal])
  | .exited => none

/-- The application's threads and the reconnect threads, by the order in which
these are created; `freeing` once `ak_tcp_client_free` is called. -/
structure System (n : Nat) where
  world : World
  apps : Fin n → AppPhase
  loops : List LoopPhase
  freeing : Bool

def beginsCall : AppPhase → Bool
  | .connect | .setAutoReconnect _ | .stop .disconnect => true
  | .getCtx isRecv call => begins call && (isRecv == match call with | .recv _ => true | _ => false)
  | _ => false

variable {n : Nat}

def System.app (s : System n) (i : Fin n) (p : AppPhase) (world : World) : System n :=
  { s with world, apps := Function.update s.apps i p }

def World.setClient (w : World) (client : Client) : World := { w with client }

def System.spawn (s : System n) (i : Fin n) (created : Bool) : System n × List ClientEvent :=
  if created then
    ({ s.app i .idle (s.world.setClient { s.world.client with reconnectThread := some s.loops.length }) with
        loops := s.loops ++ [.top] }, [])
  else (s.app i .idle s.world, [.spawnFailed])

def System.joined (s : System n) : Bool :=
  s.world.client.reconnectThread.all fun k => (s.loops[k]?).all (· = .exited)

def akTcpClientIsConnected (w : World) (peerClosed : Bool) : World × List ClientEvent :=
  match w.client.state, w.client.ctx with
  | .connected, some ctx =>
    let (_, conn, events) := akTcpIsAlive (w.conn ctx) peerClosed
    (w.setConn ctx conn, touches ctx events)
  | _, _ => (w, [])

/-- Every order of the threads' steps. The application frees the client when
its other calls have returned, and calls nothing afterwards. -/
inductive Step : System n → List ClientEvent → System n → Prop
  | begin (s : System n) (i : Fin n) (p : AppPhase) (hidle : s.apps i = .idle) (hp : beginsCall p)
    (hlive : s.freeing = false) : Step s [] (s.app i p s.world)
  | beginFree (s : System n) (i : Fin n) (hidle : ∀ j, s.apps j = .idle) (hlive : s.freeing = false) :
    Step s [] { s.app i (.stop .free) s.world with freeing := true }
  | app (s : System n) (i : Fin n) (reply : ClientReply) (p : AppPhase) (world : World) (events : List ClientEvent)
    (h : appStep s.world reply (s.apps i) = some (p, world, events)) : Step s events (s.app i p world)
  | spawn (s : System n) (i : Fin n) (created : Bool) (hi : s.apps i = .spawn) :
    Step s (s.spawn i created).2 (s.spawn i created).1
  | join (s : System n) (i : Fin n) (caller : StopCaller) (hi : s.apps i = .join caller) (hjoined : s.joined) :
    Step s [] (s.app i (afterStop caller) s.world)
  | isConnected (s : System n) (i : Fin n) (peerClosed : Bool) (hidle : s.apps i = .idle) (hlive : s.freeing = false) :
    Step s (akTcpClientIsConnected s.world peerClosed).2
      { s with world := (akTcpClientIsConnected s.world peerClosed).1 }
  | loop (s : System n) (k : Nat) (reply : ClientReply) (p p' : LoopPhase) (world : World)
    (events : List ClientEvent) (hk : s.loops[k]? = some p) (h : loopStep s.world reply p = some (p', world, events)) :
    Step s events { s with world, loops := s.loops.set k p' }
  | release (s : System n) (i : Fin n) (hi : s.apps i = .release) :
    Step s [.freedInternal] (s.app i .released s.world)

def akTcpClientNew (n : Nat) (autoReconnect : Bool) (reconnectMaxAttempts : Nat) : System n :=
  ⟨⟨⟨.disconnected, none, autoReconnect, reconnectMaxAttempts, 0, none, false, false⟩, fun _ => none, 0⟩,
    fun _ => .idle, [], false⟩

inductive AppMove (w : World) : AppPhase → AppPhase → World → List ClientEvent → Prop
  | alreadyConnected (h : w.client.state = .connected) : AppMove w .connect .idle w [.returnedOk]
  | inProgress (h : w.client.state = .connecting ∨ w.client.state = .reconnecting) :
    AppMove w .connect .idle w [.refused]
  | connect (h : w.client.state = .disconnected) :
    AppMove w .connect .attempt (w.setClient { w.client with state := .connecting, currentAttempt := 1 }) []
  | opened (opened : Opened) : AppMove w .attempt (.publish opened) w []
  | notOpened : AppMove w .attempt .failed w []
  | publish (opened : Opened) :
    AppMove w (.publish opened) .connected (clientDoConnect w opened) (w.client.ctx.toList.map .freedCtx)
  | connected : AppMove w .connected .idle w [.returnedOk]
  | reconnect (h : w.client.autoReconnect = true) : AppMove w .failed (.start true) w []
  | giveUp (h : w.client.autoReconnect = false) : AppMove w .failed .settle w []
  | settle : AppMove w .settle .idle (w.setClient { w.client with state := .disconnected }) []
  | defer (h : w.client.reconnectThreadRunning = true) : AppMove w (.start true) .idle w [.deferred]
  | alreadyRunning (h : w.client.reconnectThreadRunning = true) : AppMove w (.start false) .idle w []
  | start (connecting : Bool) (h : w.client.reconnectThreadRunning = false) :
    AppMove w (.start connecting) .spawn
      (w.setClient { w.client with reconnectThreadRunning := true, stopReconnect := false, state := .reconnecting }) []
  | enable : AppMove w (.setAutoReconnect true) .idle (w.setClient { w.client with autoReconnect := true }) []
  | disable :
    AppMove w (.setAutoReconnect false) (.stop .setAutoReconnect)
      (w.setClient { w.client with autoReconnect := false }) []
  | notRunning (caller : StopCaller) (h : w.client.reconnectThreadRunning = false) :
    AppMove w (.stop caller) (afterStop caller) w []
  | stop (caller : StopCaller) (h : w.client.reconnectThreadRunning = true) :
    AppMove w (.stop caller) (.join caller) (w.setClient { w.client with stopReconnect := true }) [.stopped caller]
  | reset (caller : StopCaller) :
    AppMove w (.reset caller) (.farewell caller) (disconnectSection w) (w.client.ctx.toList.map .freedCtx)
  | disconnected (caller : StopCaller) (h : caller ≠ .free) : AppMove w (.farewell caller) .idle w []
  | free : AppMove w (.farewell .free) .release w []
  | noCtx (isRecv : Bool) (call : CallPhase) (h : w.client.ctx = none) : AppMove w (.getCtx isRecv call) .idle w []
  | ctx (isRecv : Bool) (call : CallPhase) (ctx : Nat) (h : w.client.ctx = some ctx) :
    AppMove w (.getCtx isRecv call) (.call isRecv ctx call) w []
  | transfer (isRecv : Bool) (ctx : Nat) (p p' : CallPhase) (conn : Conn) (reply : Reply) (events : List Event)
    (h : callStep (w.conn ctx) reply p = some (p', conn, events)) :
    AppMove w (.call isRecv ctx p) (.call isRecv ctx p') (w.setConn ctx conn) (touches ctx events)
  | returned (isRecv : Bool) (ctx : Nat) (r : Returned) : AppMove w (.call isRecv ctx (.returned r)) .idle w []
  | closed (ctx : Nat) (error : Option String) : AppMove w (.call true ctx (.returned (.count 0 error))) .lost w []
  | failed (ctx : Nat) (m : Int) (error : Option String) (h : m < 0) :
    AppMove w (.call true ctx (.returned (.count m error))) (.checkAlive ctx) w []
  | alive (ctx : Nat) (conn : Conn) (events : List Event) :
    AppMove w (.checkAlive ctx) .idle (w.setConn ctx conn) (touches ctx events)
  | dead (ctx : Nat) (conn : Conn) (events : List Event) :
    AppMove w (.checkAlive ctx) .lost (w.setConn ctx conn) (touches ctx events)
  | lose (h : w.client.autoReconnect = true) : AppMove w .lost (.start false) w []
  | lost (h : w.client.autoReconnect = false) : AppMove w .lost .idle w []

inductive LoopMove (w : World) : LoopPhase → LoopPhase → World → List ClientEvent → Prop
  | needless (h : w.client.stopReconnect = true ∨ w.client.state = .connected) :
    LoopMove w .top .exited (w.setClient { w.client with reconnectThreadRunning := false }) [.touchedInternal]
  | giveUp :
    LoopMove w .top .giveUp (w.setClient { w.client with state := .disconnected, reconnectThreadRunning := false })
      [.touchedInternal]
  | delay : LoopMove w .top .delay w [.touchedInternal]
  | stopped (p : LoopPhase) (hp : p = .delay ∨ p = .waiting) (h : w.client.stopReconnect = true) :
    LoopMove w p .exited (w.setClient { w.client with reconnectThreadRunning := false }) [.touchedInternal]
  | wait : LoopMove w .delay .waiting w [.touchedInternal]
  | again (h : w.client.stopReconnect = false) : LoopMove w .waiting .retry w [.touchedInternal]
  | retry :
    LoopMove w .retry .attempt
      (w.setClient { w.client with state := .reconnecting, currentAttempt := w.client.currentAttempt + 1 })
      [.touchedInternal]
  | opened (opened : Opened) : LoopMove w .attempt (.publish opened) w [.touchedInternal]
  | notOpened : LoopMove w .attempt .failed w [.touchedInternal]
  | publish (opened : Opened) :
    LoopMove w (.publish opened) .connected (clientDoConnect w opened)
      (.touchedInternal :: w.client.ctx.toList.map .replacedCtx)
  | connected : LoopMove w .connected .clear w [.touchedInternal]
  | clear : LoopMove w .clear .exited (w.setClient { w.client with reconnectThreadRunning := false }) [.touchedInternal]
  | failed : LoopMove w .failed .backoff w [.touchedInternal]
  | backoff : LoopMove w .backoff .top w [.touchedInternal]
  | notice : LoopMove w .giveUp .exited w [.touchedInternal]

section Moves

variable {w w' : World} {reply : ClientReply} {events : List ClientEvent}

theorem appStep_call {isRecv : Bool} {ctx : Nat} {q : CallPhase} {p' : AppPhase}
    (h : appStep w reply (.call isRecv ctx q) = some (p', w', events)) :
    AppMove w (.call isRecv ctx q) p' w' events := by
  cases q with
  | returned r =>
      cases r with
      | count m error =>
          simp only [appStep, afterCall] at h
          split_ifs at h with hzero hneg
          · obtain ⟨rfl, rfl⟩ := hzero
            cases h
            exact .closed ctx error
          · obtain ⟨rfl, hneg⟩ := hneg
            cases h
            exact .failed ctx m error hneg
          · cases h
            exact .returned isRecv ctx _
      | buffer result =>
          cases h
          exact .returned isRecv ctx _
  | _ =>
      simp only [appStep, bind, Option.bind_eq_some_iff] at h
      obtain ⟨⟨q, conn, events⟩, hcall, h⟩ := h
      cases h
      exact .transfer isRecv ctx _ q conn reply.call events hcall

theorem appStep_move {p p' : AppPhase} (h : appStep w reply p = some (p', w', events)) : AppMove w p p' w' events := by
  cases p with
  | connect =>
      simp only [appStep] at h
      split at h
      · rename_i hstate
        cases h
        exact .alreadyConnected hstate
      · rename_i hstate
        cases h
        exact .inProgress (.inl hstate)
      · rename_i hstate
        cases h
        exact .inProgress (.inr hstate)
      · rename_i hstate
        cases h
        exact .connect hstate
  | attempt =>
      simp only [appStep] at h
      split at h
      · cases h
        exact .opened _
      · cases h
        exact .notOpened
  | publish opened =>
      cases h
      exact .publish opened
  | connected =>
      cases h
      exact .connected
  | failed =>
      simp only [appStep] at h
      cases h
      split_ifs with hauto
      · exact .reconnect hauto
      · exact .giveUp (by simpa using hauto)
  | settle =>
      cases h
      exact .settle
  | start connecting =>
      simp only [appStep] at h
      split_ifs at h with hrunning hconnecting
      · cases h
        subst hconnecting
        exact .defer hrunning
      · cases h
        obtain rfl : connecting = false := by simpa using hconnecting
        exact .alreadyRunning hrunning
      · cases h
        exact .start connecting (by simpa using hrunning)
  | setAutoReconnect enable =>
      cases enable with
      | true =>
          cases h
          exact .enable
      | false =>
          cases h
          exact .disable
  | stop caller =>
      simp only [appStep] at h
      split_ifs at h with hrunning
      · cases h
        exact .notRunning caller (by simpa using hrunning)
      · cases h
        exact .stop caller (by simpa using hrunning)
  | reset caller =>
      cases h
      exact .reset caller
  | farewell caller =>
      simp only [appStep] at h
      cases h
      split_ifs with hfree
      · subst hfree
        exact .free
      · exact .disconnected caller hfree
  | getCtx isRecv call =>
      simp only [appStep] at h
      split at h
      · rename_i hctx
        cases h
        exact .noCtx isRecv call hctx
      · rename_i ctx hctx
        cases h
        exact .ctx isRecv call ctx hctx
  | call isRecv ctx q => exact appStep_call h
  | checkAlive ctx =>
      simp only [appStep] at h
      cases h
      split_ifs
      · exact .alive ctx _ _
      · exact .dead ctx _ _
  | lost =>
      simp only [appStep] at h
      cases h
      split_ifs with hauto
      · exact .lose hauto
      · exact .lost (by simpa using hauto)
  | idle | spawn | join | release | released => cases h

theorem loopStep_move {p p' : LoopPhase} (h : loopStep w reply p = some (p', w', events)) :
    LoopMove w p p' w' events := by
  cases p with
  | top =>
      simp only [loopStep] at h
      split_ifs at h with hneedless hmax
      · cases h
        exact .needless hneedless
      · cases h
        exact .giveUp
      · cases h
        exact .delay
  | delay =>
      simp only [loopStep] at h
      split_ifs at h with hstop
      · cases h
        exact .stopped _ (.inl rfl) hstop
      · cases h
        exact .wait
  | waiting =>
      simp only [loopStep] at h
      split_ifs at h with hstop
      · cases h
        exact .stopped _ (.inr rfl) hstop
      · cases h
        exact .again (by simpa using hstop)
  | retry =>
      cases h
      exact .retry
  | attempt =>
      simp only [loopStep] at h
      split at h
      · cases h
        exact .opened _
      · cases h
        exact .notOpened
  | publish opened =>
      cases h
      exact .publish opened
  | connected =>
      cases h
      exact .connected
  | clear =>
      cases h
      exact .clear
  | failed =>
      cases h
      exact .failed
  | backoff =>
      cases h
      exact .backoff
  | giveUp =>
      cases h
      exact .notice
  | exited => cases h

end Moves

end Ak24.TcpClientModel
