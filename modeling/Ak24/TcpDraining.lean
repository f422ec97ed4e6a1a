import Ak24.TcpServerModel

namespace Ak24.TcpDraining

open TcpServerModel hiding Step
open Transition

/-- Where the thread that starts and stops the server is. A thread that is
`waiting` is blocked on `shutdown_cond` and nothing has notified it yet; one that
is `timedOut` has its result and stands before the mutex. -/
inductive Control
  | idle
  | opening
  | creating
  | undoing
  | closing
  | joining
  | draining
  | waiting
  | timedOut
  | pooling
  deriving DecidableEq, Repr

def Control.stops : Control → Bool
  | .closing | .joining | .draining | .waiting | .timedOut | .pooling => true
  | _ => false

structure Controlled where
  system : System
  control : Control

inductive Event
  | stopping
  | stopped
  deriving DecidableEq, Repr

structure ControlReply where
  listens : Bool
  created : Bool
  result : Int
  deriving DecidableEq, Repr

def akTcpServerIsDraining : Option Server → Bool
  | none => false
  | some server => server.draining

def Controlled.setRunning (s : Controlled) (running : Bool) (control : Control) : Controlled :=
  ⟨{ s.system with server := { s.system.server with running } }, control⟩

def Controlled.endDrain (s : Controlled) : Controlled :=
  ⟨{ s.system with server := { s.system.server with draining := false } }, .pooling⟩

def akTcpServerStart (reply : ControlReply) (s : Controlled) : Option Controlled :=
  match s.control with
  | .idle => some { s with control := if s.system.server.running then .idle else .opening }
  | .opening => some (if reply.listens then s.setRunning true .creating else { s with control := .idle })
  | .creating =>
    some (if reply.created then ⟨{ s.system with accept := .top }, .idle⟩ else { s with control := .undoing })
  | .undoing => some (s.setRunning false .idle)
  | _ => none

/-- One step of `ak_tcp_server_stop`. The test of its loop and the wait are one
critical section, and the wait gives the mutex up. -/
def akTcpServerStop (shutdownDrainTimeoutMs : UInt32) (reply : ControlReply) (s : Controlled) :
    Option (Controlled × List Event) :=
  match s.control with
  | .idle =>
    if s.system.server.running then
      some (⟨{ s.system with server := { s.system.server with running := false, draining := true } }, .closing⟩,
        [.stopping])
    else some (s, [.stopped])
  | .closing => some ({ s with control := .joining }, [])
  | .joining =>
    if s.system.accept = .exited then
      some ({ s with control := if 0 < shutdownDrainTimeoutMs then .draining else .pooling }, [])
    else none
  | .draining =>
    if 0 < s.system.server.activeConnections then some ({ s with control := .waiting }, []) else some (s.endDrain, [])
  | .waiting => some ({ s with control := if reply.result = 0 then .draining else .timedOut }, [])
  | .timedOut => some (s.endDrain, [])
  | .pooling =>
    if s.system.workers.all (·.phase = .done) then some ({ s with control := .idle }, [.stopped]) else none
  | _ => none

/-- What `AK24_COND_SIGNAL` does to the controlling thread: it wakes it where it
is blocked, and is lost elsewhere. -/
def Control.signal : Control → Control
  | .waiting => .draining
  | control => control

/-- Every order of the steps of the accept thread, the workers and the thread
that starts and stops the server. -/
inductive Step (cfg : Config) (shutdownDrainTimeoutMs : UInt32) : Controlled → List Event → Controlled → Prop
  | start (s s' : Controlled) (reply : ControlReply) (h : akTcpServerStart reply s = some s') :
    Step cfg shutdownDrainTimeoutMs s [] s'
  | stop (s s' : Controlled) (reply : ControlReply) (events : List Event)
    (h : akTcpServerStop shutdownDrainTimeoutMs reply s = some (s', events)) :
    Step cfg shutdownDrainTimeoutMs s events s'
  | accept (s : Controlled) (system : System) (reply : AcceptReply) (events : List ServerEvent)
    (h : acceptStep cfg s.system reply = some (system, events)) :
    Step cfg shutdownDrainTimeoutMs s [] { s with system }
  | worker (s : Controlled) (k : Nat) (w w' : Worker) (server : Server) (events : List ServerEvent)
    (hk : s.system.workers[k]? = some w) (h : workerStep s.system.server w = some (w', server, events)) :
    Step cfg shutdownDrainTimeoutMs s []
      ⟨{ s.system with server, workers := s.system.workers.set k w' },
        if .drained ∈ events then s.control.signal else s.control⟩

def Controlled.new : Controlled := ⟨akTcpServerNew, .idle⟩

/-- Outside a call of `ak_tcp_server_stop` the server is not draining, and the
call waits with no notification only for connections. -/
def DrainingEnds (s : Controlled) : Prop :=
  (s.control.stops = false → akTcpServerIsDraining (some s.system.server) = false) ∧
    (s.control = .waiting → 0 < s.system.server.activeConnections)

def Control.flagged : Control → Bool
  | .closing | .joining | .draining | .waiting | .timedOut => true
  | _ => false

/-- The call has joined the accept thread and is in its critical section or
about to enter it. -/
def Control.drains : Control → Bool
  | .draining | .waiting | .timedOut => true
  | _ => false

structure DrainOk (shutdownDrainTimeoutMs : UInt32) (trace : List Event) (s : Controlled) : Prop where
  flagged : s.control.flagged → s.system.server.draining = true ∧ Event.stopping ∈ trace
  cleared : s.control.flagged = false →
    (s.system.server.draining = false ↔ 0 < shutdownDrainTimeoutMs ∨ Event.stopping ∉ trace)
  joined : s.control.drains → 0 < shutdownDrainTimeoutMs ∧ s.system.accept = .exited
  waits : s.control = .waiting → 0 < s.system.server.activeConnections

section Steps

variable {cfg : Config} {timeout : UInt32} {s s' : Controlled} {trace events : List Event}

theorem acceptStep_draining {system system' : System} {reply : AcceptReply} {serverEvents : List ServerEvent}
    (h : acceptStep cfg system reply = some (system', serverEvents)) :
    system'.server.draining = system.server.draining := by
  obtain ⟨server, phase, workers, sockets⟩ := system
  cases acceptStep_move h <;> rfl

theorem workerStep_draining {server server' : Server} {w w' : Worker} {serverEvents : List ServerEvent}
    (h : workerStep server w = some (w', server', serverEvents)) : server'.draining = server.draining := by
  rw [workerStep] at h
  split at h
  all_goals cases h
  all_goals rfl

theorem workerStep_drained {server server' : Server} {w w' : Worker} {serverEvents : List ServerEvent}
    (h : workerStep server w = some (w', server', serverEvents)) (hdraining : server.draining = true)
    (hactive : 0 < server.activeConnections) (hquiet : .drained ∉ serverEvents) : 0 < server'.activeConnections := by
  rw [workerStep] at h
  split at h
  · cases h
    exact hactive
  · cases h
    exact hactive
  · cases h
    apply Nat.pos_of_ne_zero
    intro hzero
    apply hquiet
    simp [hdraining, hzero]
  · cases h

theorem Control.signal_flagged (control : Control) : control.signal.flagged = control.flagged := by
  cases control <;> rfl

theorem Control.signal_drains (control : Control) : control.signal.drains = control.drains := by
  cases control <;> rfl

theorem Control.signal_ne_waiting (control : Control) : control.signal ≠ .waiting := by
  cases control <;> simp [Control.signal]

theorem akTcpServerStart_effect {reply : ControlReply} (h : akTcpServerStart reply s = some s') :
    s.control.flagged = false ∧ s'.control.flagged = false ∧ s'.control.drains = false ∧
      s'.system.server.draining = s.system.server.draining := by
  obtain ⟨system, control⟩ := s
  cases control with
  | idle =>
      cases h
      split_ifs <;> exact ⟨rfl, rfl, rfl, rfl⟩
  | opening | creating =>
      simp only [akTcpServerStart] at h
      cases h
      split_ifs <;> exact ⟨rfl, rfl, rfl, rfl⟩
  | undoing =>
      cases h
      exact ⟨rfl, rfl, rfl, rfl⟩
  | closing | joining | draining | waiting | timedOut | pooling => cases h

theorem Control.drains_of_waiting {control : Control} (h : control = .waiting) : control.drains = true := by
  rw [h]
  rfl

theorem DrainOk.start {reply : ControlReply} (hok : DrainOk timeout trace s)
    (h : akTcpServerStart reply s = some s') : DrainOk timeout trace s' := by
  obtain ⟨hflagged, hflagged', hdrains, hdraining⟩ := akTcpServerStart_effect h
  refine ⟨fun hf => ?_, fun _ => ?_, fun hd => ?_, fun hw => ?_⟩
  · rw [hflagged'] at hf
    cases hf
  · rw [hdraining]
    exact hok.cleared hflagged
  · rw [hdrains] at hd
    cases hd
  · rw [Control.drains_of_waiting hw] at hdrains
    cases hdrains

theorem DrainOk.endDrain (trace : List Event) (htimeout : 0 < timeout) : DrainOk timeout trace s.endDrain := by
  refine ⟨by simp [Controlled.endDrain, Control.flagged], fun _ => ?_, by simp [Controlled.endDrain, Control.drains],
    by simp [Controlled.endDrain]⟩
  exact iff_of_true rfl (.inl htimeout)

theorem DrainOk.stop {reply : ControlReply} (hok : DrainOk timeout trace s)
    (h : akTcpServerStop timeout reply s = some (s', events)) : DrainOk timeout (trace ++ events) s' := by
  obtain ⟨system, control⟩ := s
  cases control with
  | idle =>
      simp only [akTcpServerStop] at h
      split_ifs at h with hrunning
      · cases h
        exact ⟨fun _ => ⟨rfl, by simp⟩, by simp [Control.flagged], by simp [Control.drains], by simp⟩
      · cases h
        exact ⟨by simp [Control.flagged], by simpa using hok.cleared, hok.joined, hok.waits⟩
  | closing =>
      cases h
      exact ⟨fun _ => by simpa using hok.flagged rfl, by simp [Control.flagged], by simp [Control.drains], by simp⟩
  | joining =>
      simp only [akTcpServerStop] at h
      split_ifs at h with hexited htimeout
      · cases h
        exact ⟨fun _ => by simpa using hok.flagged rfl, by simp [Control.flagged], fun _ => ⟨htimeout, hexited⟩, by simp⟩
      · cases h
        obtain ⟨hdraining, hstopping⟩ := hok.flagged rfl
        refine ⟨by simp [Control.flagged], fun _ => ?_, by simp [Control.drains], by simp⟩
        simpa [hstopping, htimeout] using hdraining
  | draining =>
      simp only [akTcpServerStop] at h
      split_ifs at h with hactive
      · cases h
        exact ⟨fun _ => by simpa using hok.flagged rfl, by simp [Control.flagged], fun _ => hok.joined rfl, fun _ => hactive⟩
      · cases h
        exact .endDrain _ (hok.joined rfl).1
  | waiting =>
      simp only [akTcpServerStop] at h
      cases h
      split_ifs
      all_goals
        exact ⟨fun _ => by simpa using hok.flagged rfl, by simp [Control.flagged], fun _ => hok.joined rfl, by simp⟩
  | timedOut =>
      cases h
      exact .endDrain _ (hok.joined rfl).1
  | pooling =>
      simp only [akTcpServerStop] at h
      split_ifs at h
      cases h
      exact ⟨by simp [Control.flagged], fun _ => by simpa using hok.cleared rfl, by simp [Control.drains], by simp⟩
  | opening | creating | undoing => cases h

theorem DrainOk.accept {system : System} {reply : AcceptReply} {serverEvents : List ServerEvent}
    (hok : DrainOk timeout trace s) (h : acceptStep cfg s.system reply = some (system, serverEvents)) :
    DrainOk timeout trace { s with system } := by
  have hdraining := acceptStep_draining h
  -- a joined accept thread takes no step
  have hrunning : s.control.drains ≠ true := by
    intro hdrains
    simp [acceptStep, (hok.joined hdrains).2] at h
  refine ⟨fun hf => ?_, fun hf => ?_, fun hd => absurd hd hrunning, fun hw => ?_⟩
  · rw [hdraining]
    exact hok.flagged hf
  · rw [hdraining]
    exact hok.cleared hf
  · exact absurd (Control.drains_of_waiting hw) hrunning

theorem DrainOk.worker {k : Nat} {w w' : Worker} {server : Server} {serverEvents : List ServerEvent}
    (hok : DrainOk timeout trace s) (h : workerStep s.system.server w = some (w', server, serverEvents)) :
    DrainOk timeout trace
      ⟨{ s.system with server, workers := s.system.workers.set k w' },
        if .drained ∈ serverEvents then s.control.signal else s.control⟩ := by
  have hdraining := workerStep_draining h
  split_ifs with hdrained
  · refine ⟨fun hf => ?_, fun hf => ?_, fun hd => ?_, fun hw => absurd hw s.control.signal_ne_waiting⟩
    · rw [hdraining]
      exact hok.flagged (s.control.signal_flagged ▸ hf)
    · rw [hdraining]
      exact hok.cleared (s.control.signal_flagged ▸ hf)
    · exact hok.joined (s.control.signal_drains ▸ hd)
  · refine ⟨fun hf => ?_, fun hf => ?_, hok.joined, fun hw => ?_⟩
    · rw [hdraining]
      exact hok.flagged hf
    · rw [hdraining]
      exact hok.cleared hf
    · exact workerStep_drained h (hok.flagged (by rw [hw]; rfl)).1 (hok.waits hw) hdrained

theorem DrainOk.step (hok : DrainOk timeout trace s) (h : Step cfg timeout s events s') :
    DrainOk timeout (trace ++ events) s' := by
  cases h with
  | start _ reply hstart => simpa using hok.start hstart
  | stop _ reply _ hstop => exact hok.stop hstop
  | accept system reply serverEvents haccept => simpa using hok.accept haccept
  | worker k w w' server serverEvents hk hworker => simpa using hok.worker hworker

theorem DrainOk.run (h : Run (Step cfg timeout) Controlled.new trace s) : DrainOk timeout trace s := by
  apply h.invariant (P := DrainOk timeout)
  · exact ⟨by simp [Controlled.new, Control.flagged], fun _ => by simp [Controlled.new, akTcpServerNew],
      by simp [Controlled.new, Control.drains], by simp [Controlled.new]⟩
  · exact fun trace s events s' hok hstep => hok.step hstep

theorem Control.flagged_stops {control : Control} (h : control.stops = false) : control.flagged = false := by
  cases control <;> simp_all [Control.stops, Control.flagged]

/-- Outside a stop the flag tells whether the server was ever stopped without a
drain timeout. -/
theorem draining_iff (h : Run (Step cfg timeout) Controlled.new trace s) (hrest : s.control.stops = false) :
    akTcpServerIsDraining (some s.system.server) = false ↔ 0 < timeout ∨ Event.stopping ∉ trace :=
  (DrainOk.run h).cleared (Control.flagged_stops hrest)

end Steps

section Server

variable {cfg : Config} {timeout : UInt32} {s s' : Controlled} {trace events : List Event}

def Control.creates : Control → Bool
  | .creating | .undoing => true
  | _ => false

/-- The server as its threads see it: it runs once the accept thread is created. -/
def Controlled.server (s : Controlled) : System :=
  if s.control.creates then { s.system with server := { s.system.server with running := false } } else s.system

structure Joined (s : Controlled) : Prop where
  exited : s.control ≠ .closing → s.control ≠ .joining → s.server.server.running = false → s.system.accept = .exited
  opening : s.control = .opening → s.system.server.running = false
  creating : s.control = .creating → s.system.server.running = true
  stopping : s.control.stops → s.system.server.running = false

theorem Controlled.server_of_idle (h : s.control.creates = false) : s.server = s.system := by
  rw [Controlled.server, h]
  rfl

theorem setRunning_server (hrunning : s.system.server.running = false) :
    (s.setRunning true .creating).server = s.system := by
  obtain ⟨⟨⟨running, draining, active, trackers, connections⟩, phase, workers, sockets⟩, control⟩ := s
  obtain rfl : running = false := hrunning
  rfl

theorem acceptStep_running {system system' : System} {reply : AcceptReply} {serverEvents : List ServerEvent}
    (h : acceptStep cfg system reply = some (system', serverEvents)) :
    system'.server.running = system.server.running := by
  obtain ⟨server, phase, workers, sockets⟩ := system
  cases acceptStep_move h <;> rfl

theorem workerStep_running {server server' : Server} {w w' : Worker} {serverEvents : List ServerEvent}
    (h : workerStep server w = some (w', server', serverEvents)) (running : Bool) :
    workerStep { server with running } w = some (w', { server' with running }, serverEvents) ∧
      server'.running = server.running := by
  obtain ⟨conn, phase⟩ := w
  cases phase with
  | handle | untrack | leave =>
      cases h
      exact ⟨rfl, rfl⟩
  | done => cases h

theorem created_server {system : System} (hrunning : system.server.running = true) (hexited : system.accept = .exited) :
    TcpServerModel.Step cfg (Controlled.server ⟨system, .creating⟩) []
      (Controlled.server ⟨{ system with accept := .top }, .idle⟩) := by
  obtain ⟨⟨running, draining, active, trackers, connections⟩, phase, workers, sockets⟩ := system
  obtain rfl : running = true := hrunning
  exact .start _ hexited rfl

def Matched (cfg : Config) (s s' : Controlled) : Prop :=
  s'.server = s.server ∨ ∃ serverEvents, TcpServerModel.Step cfg s.server serverEvents s'.server

theorem akTcpServerStart_server {reply : ControlReply} (hj : Joined s) (h : akTcpServerStart reply s = some s') :
    Joined s' ∧ Matched cfg s s' := by
  obtain ⟨system, control⟩ := s
  cases control with
  | idle =>
      cases h
      have hexited := hj.exited (by simp) (by simp)
      split_ifs with hrunning
      · exact ⟨⟨fun _ _ => hexited, by simp, by simp, by simp [Control.stops]⟩, .inl rfl⟩
      · exact ⟨⟨fun _ _ => hexited, fun _ => by simpa using hrunning, by simp, by simp [Control.stops]⟩, .inl rfl⟩
  | opening =>
      have hrunning := hj.opening rfl
      have hexited := hj.exited (by simp) (by simp) hrunning
      simp only [akTcpServerStart] at h
      cases h
      split_ifs
      · exact ⟨⟨fun _ _ _ => hexited, by simp [Controlled.setRunning], fun _ => rfl,
          by simp [Controlled.setRunning, Control.stops]⟩, .inl (setRunning_server hrunning)⟩
      · exact ⟨⟨fun _ _ _ => hexited, by simp, by simp, by simp [Control.stops]⟩, .inl rfl⟩
  | creating =>
      have hexited := hj.exited (by simp) (by simp) rfl
      have hrunning := hj.creating rfl
      simp only [akTcpServerStart] at h
      cases h
      split_ifs
      · refine ⟨⟨fun _ _ hidle => ?_, by simp, by simp, by simp [Control.stops]⟩, .inr ⟨[], ?_⟩⟩
        · exact absurd (hrunning.symm.trans hidle) (by simp)
        · exact created_server hrunning hexited
      · exact ⟨⟨fun _ _ _ => hexited, by simp, by simp, by simp [Control.stops]⟩, .inl rfl⟩
  | undoing =>
      have hexited := hj.exited (by simp) (by simp) rfl
      cases h
      exact ⟨⟨fun _ _ _ => hexited, by simp [Controlled.setRunning], by simp [Controlled.setRunning],
        by simp [Controlled.setRunning, Control.stops]⟩, .inl rfl⟩
  | closing | joining | draining | waiting | timedOut | pooling => cases h

theorem Joined.move {system : System} {control control' : Control} (hj : Joined ⟨system, control⟩)
    (hstops : control.stops = true) (hstops' : control'.stops = true)
    (hexited : control' ≠ .joining → system.accept = .exited) :
    Joined ⟨system, control'⟩ ∧ Matched cfg ⟨system, control⟩ ⟨system, control'⟩ := by
  have hrunning := hj.stopping hstops
  have hserver : ∀ c : Control, c.stops = true → Controlled.server ⟨system, c⟩ = system := by
    intro c hc
    cases c <;> first | rfl | cases hc
  refine ⟨⟨fun _ hjoining _ => hexited hjoining, ?_, ?_, fun _ => hrunning⟩, .inl ?_⟩
  · rintro rfl
    cases hstops'
  · rintro rfl
    cases hstops'
  · rw [hserver control hstops, hserver control' hstops']

theorem Joined.endDrain (hj : Joined s) (hstops : s.control.stops = true) (hexited : s.system.accept = .exited)
    (hcreates : s.control.creates = false) : Joined s.endDrain ∧ Matched cfg s s.endDrain := by
  refine ⟨⟨fun _ _ _ => hexited, by simp [Controlled.endDrain], by simp [Controlled.endDrain],
    fun _ => hj.stopping hstops⟩, .inr ⟨[], ?_⟩⟩
  rw [Controlled.server_of_idle hcreates]
  exact .drain s.system hexited

theorem akTcpServerStop_server {reply : ControlReply} (hj : Joined s)
    (h : akTcpServerStop timeout reply s = some (s', events)) : Joined s' ∧ Matched cfg s s' := by
  obtain ⟨system, control⟩ := s
  cases control with
  | idle =>
      simp only [akTcpServerStop] at h
      split_ifs at h with hrunning
      · cases h
        exact ⟨⟨by simp, by simp, by simp, fun _ => rfl⟩, .inr ⟨[], .stop system hrunning⟩⟩
      · cases h
        exact ⟨hj, .inl rfl⟩
  | closing =>
      cases h
      exact hj.move rfl rfl (by simp)
  | joining =>
      simp only [akTcpServerStop] at h
      split_ifs at h with hexited
      all_goals
        cases h
        exact hj.move rfl rfl fun _ => hexited
  | draining =>
      have hexited := hj.exited (by simp) (by simp) (hj.stopping rfl)
      simp only [akTcpServerStop] at h
      split_ifs at h
      · cases h
        exact hj.move rfl rfl fun _ => hexited
      · cases h
        exact hj.endDrain rfl hexited rfl
  | waiting =>
      have hexited := hj.exited (by simp) (by simp) (hj.stopping rfl)
      simp only [akTcpServerStop] at h
      cases h
      split_ifs
      all_goals exact hj.move rfl rfl fun _ => hexited
  | timedOut =>
      have hexited := hj.exited (by simp) (by simp) (hj.stopping rfl)
      cases h
      exact hj.endDrain rfl hexited rfl
  | pooling =>
      have hexited := hj.exited (by simp) (by simp) (hj.stopping rfl)
      simp only [akTcpServerStop] at h
      split_ifs at h
      cases h
      exact ⟨⟨fun _ _ _ => hexited, by simp, by simp, by simp [Control.stops]⟩, .inl rfl⟩
  | opening | creating | undoing => cases h

theorem Joined.accept {system : System} {reply : AcceptReply} {serverEvents : List ServerEvent} (hj : Joined s)
    (h : acceptStep cfg s.system reply = some (system, serverEvents)) :
    Joined { s with system } ∧ Matched cfg s { s with system } := by
  have hrunning := acceptStep_running h
  have hmoves : s.system.accept ≠ .exited := by
    intro hexited
    simp [acceptStep, hexited] at h
  -- an accept thread that takes a step was created
  have hcreates : s.control.creates = false := by
    by_contra hcreates
    rw [Bool.not_eq_false] at hcreates
    apply hmoves
    apply hj.exited
    · rintro hclosing
      rw [hclosing] at hcreates
      cases hcreates
    · rintro hjoining
      rw [hjoining] at hcreates
      cases hcreates
    · rw [Controlled.server, if_pos hcreates]
  have hbefore := Controlled.server_of_idle hcreates
  have hafter : Controlled.server { s with system } = system := Controlled.server_of_idle hcreates
  refine ⟨⟨fun hclosing hjoining hidle => ?_, fun ho => ?_, fun hc => ?_, fun hs => ?_⟩, .inr ⟨serverEvents, ?_⟩⟩
  · rw [hafter, hrunning, ← hbefore] at hidle
    exact absurd (hj.exited hclosing hjoining hidle) hmoves
  · exact hrunning.trans (hj.opening ho)
  · exact hrunning.trans (hj.creating hc)
  · exact hrunning.trans (hj.stopping hs)
  · rw [hbefore, hafter]
    exact .accept _ _ reply _ h

theorem worker_server {k : Nat} {w w' : Worker} {server : Server} {serverEvents : List ServerEvent}
    (hk : s.system.workers[k]? = some w) (h : workerStep s.system.server w = some (w', server, serverEvents))
    {control : Control} (hcreates : control.creates = s.control.creates) :
    TcpServerModel.Step cfg s.server serverEvents
      (Controlled.server ⟨{ s.system with server, workers := s.system.workers.set k w' }, control⟩) := by
  rw [Controlled.server, Controlled.server, hcreates]
  split_ifs
  · exact .worker _ k w w' _ _ hk (workerStep_running h false).1
  · exact .worker _ k w w' _ _ hk h

theorem Joined.worker {w w' : Worker} {server : Server} {serverEvents : List ServerEvent} (hj : Joined s)
    (h : workerStep s.system.server w = some (w', server, serverEvents)) (workers : List Worker) :
    Joined ⟨{ s.system with server, workers }, s.control⟩ := by
  have hrunning := (workerStep_running h false).2
  have hserver : (Controlled.server ⟨{ s.system with server, workers }, s.control⟩).server.running =
      s.server.server.running := by
    rw [Controlled.server, Controlled.server]
    split_ifs
    · rfl
    · exact hrunning
  refine ⟨fun hclosing hjoining hidle => ?_, fun ho => ?_, fun hc => ?_, fun hs => ?_⟩
  · rw [hserver] at hidle
    exact hj.exited hclosing hjoining hidle
  · exact hrunning.trans (hj.opening ho)
  · exact hrunning.trans (hj.creating hc)
  · exact hrunning.trans (hj.stopping hs)

theorem Joined.signal (hj : Joined s) : Joined { s with control := s.control.signal } := by
  obtain ⟨system, control⟩ := s
  cases control with
  | waiting =>
      have hexited := hj.exited (by simp) (by simp) (hj.stopping rfl)
      exact ⟨fun _ _ _ => hexited, by simp [Control.signal], by simp [Control.signal], fun _ => hj.stopping rfl⟩
  | _ => exact hj

theorem Control.signal_creates (control : Control) : control.signal.creates = control.creates := by
  cases control <;> rfl

theorem Step.server (hj : Joined s) (h : Step cfg timeout s events s') : Joined s' ∧ Matched cfg s s' := by
  cases h with
  | start _ reply hstart => exact akTcpServerStart_server hj hstart
  | stop _ reply _ hstop => exact akTcpServerStop_server hj hstop
  | accept system reply serverEvents haccept => exact hj.accept haccept
  | worker k w w' server serverEvents hk hworker =>
      have hjoined := hj.worker hworker (s.system.workers.set k w')
      split_ifs
      · exact ⟨hjoined.signal, .inr ⟨serverEvents, worker_server hk hworker s.control.signal_creates⟩⟩
      · exact ⟨hjoined, .inr ⟨serverEvents, worker_server hk hworker rfl⟩⟩

/-- However the server is started and stopped, its threads take the steps of a
server. -/
theorem run_server (h : Run (Step cfg timeout) Controlled.new trace s) :
    ∃ serverTrace, Run (TcpServerModel.Step cfg) akTcpServerNew serverTrace s.server := by
  have hinv : Joined s ∧ ∃ serverTrace, Run (TcpServerModel.Step cfg) akTcpServerNew serverTrace s.server := by
    apply h.invariant
      (P := fun _ s => Joined s ∧ ∃ serverTrace, Run (TcpServerModel.Step cfg) akTcpServerNew serverTrace s.server)
    · exact ⟨⟨fun _ _ _ => rfl, by simp [Controlled.new], by simp [Controlled.new],
        by simp [Controlled.new, Control.stops]⟩, [], .start⟩
    · rintro _ s events s' ⟨hj, serverTrace, hserver⟩ hstep
      obtain ⟨hj', hsame | ⟨serverEvents, hmove⟩⟩ := hstep.server hj
      · exact ⟨hj', serverTrace, hsame ▸ hserver⟩
      · exact ⟨hj', _, hserver.next hmove⟩
  exact hinv.2

end Server

section Restart

variable (cfg : Config)

def quiet : AcceptReply := ⟨.timeout, none, true, 0, true, true, true, true, true, true⟩

def granted : ControlReply := ⟨true, true, 0⟩

theorem restart_run :
    Run (Step cfg 0) Controlled.new [.stopping, .stopped]
      ⟨⟨⟨true, true, 0, [], fun _ => 0⟩, .top, [], 0⟩, .idle⟩ := by
  have r₁ : Run (Step cfg 0) Controlled.new _ _ := .next .start (.start _ _ granted rfl)
  have r₂ := r₁.next (.start _ _ granted rfl)
  have r₃ := r₂.next (.start _ _ granted rfl)
  have r₄ := r₃.next (.stop _ _ granted _ rfl)
  have r₅ := r₄.next (.accept _ _ quiet _ rfl)
  have r₆ := r₅.next (.stop _ _ granted _ rfl)
  have r₇ := r₆.next (.stop _ _ granted _ rfl)
  have r₈ := r₇.next (.stop _ _ granted _ rfl)
  have r₉ := r₈.next (.start _ _ granted rfl)
  have r₁₀ := r₉.next (.start _ _ granted rfl)
  exact r₁₀.next (.start _ _ granted rfl)

end Restart

/-- The flag ends with every stop exactly where there is a drain timeout; the
wait for connections is notified in either case. -/
theorem draining_ends (cfg : Config) (shutdownDrainTimeoutMs : UInt32) :
    (∀ trace s, Run (Step cfg shutdownDrainTimeoutMs) Controlled.new trace s → DrainingEnds s) ↔
      0 < shutdownDrainTimeoutMs := by
  constructor
  · intro hends
    by_contra hzero
    obtain rfl : shutdownDrainTimeoutMs = 0 := by simpa using hzero
    have hrest := (hends _ _ (restart_run cfg)).1 rfl
    cases hrest
  · intro htimeout trace s hrun
    exact ⟨fun hrest => (draining_iff hrun hrest).mpr (.inl htimeout), (DrainOk.run hrun).waits⟩

/-- With the default drain timeout a restarted server says that it is draining. -/
theorem draining_after_restart : ¬∀ (cfg : Config) (shutdownDrainTimeoutMs : UInt32) (trace : List Event)
    (s : Controlled), Run (Step cfg shutdownDrainTimeoutMs) Controlled.new trace s → DrainingEnds s := by
  intro hends
  have hrest := (hends ⟨0, 0, 0, false, false⟩ 0 _ _ (restart_run _)).1 rfl
  cases hrest

end Ak24.TcpDraining
