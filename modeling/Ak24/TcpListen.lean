import Ak24.TcpServerModel

namespace Ak24.TcpListen

open TcpServerModel hiding Step
open Transition

/-- How far `accept_loop` is in a call on the listening descriptor: it has to
read `listen_fd`, has read it, has issued the call. -/
inductive ListenCall
  | argument
  | holds (fd : Option Nat)
  | inside (fd : Option Nat)
  deriving DecidableEq, Repr

inductive StopPhase
  | idle
  | test
  | close
  | invalidate
  | join
  | drain
  | wait
  deriving DecidableEq, Repr

/-- A server with its listening descriptor; `opened` counts the descriptors
`ak_tcp_server_start` has opened, each of which is named by its turn. -/
structure Listening where
  system : System
  listenFd : Option Nat
  call : ListenCall
  stop : StopPhase
  opened : Nat

inductive Event
  | read
  | polled (fd : Nat)
  | accepted (fd : Nat)
  | closed (fd : Nat)
  deriving DecidableEq, Repr

def listens : AcceptPhase → Bool
  | .poll | .accept => true
  | _ => false

def issued (p : AcceptPhase) (fd : Option Nat) : List Event :=
  match p with
  | .poll => fd.toList.map .polled
  | .accept => fd.toList.map .accepted
  | _ => []

/-- On `AK_INVALID_SOCKET` nothing is ready and nothing can be accepted. -/
def answer (fd : Option Nat) (reply : AcceptReply) : AcceptReply :=
  match fd with
  | some _ => reply
  | none => { reply with poll := if reply.poll = .ready then .timeout else reply.poll, accepted := none }

def listenStep (cfg : Config) (reply : AcceptReply) (s : Listening) : Option (Listening × List Event) :=
  if listens s.system.accept then
    match s.call with
    | .argument => some ({ s with call := .holds s.listenFd }, [.read])
    | .holds fd => some ({ s with call := .inside fd }, issued s.system.accept fd)
    | .inside fd =>
      (acceptStep cfg s.system (answer fd reply)).map fun r => ({ s with system := r.1, call := .argument }, [])
  else (acceptStep cfg s.system reply).map fun r => ({ s with system := r.1 }, [])

/-- One step of `ak_tcp_server_stop`; `drains` says that there is a drain
timeout. -/
def akTcpServerStop (drains : Bool) (s : Listening) : Option (Listening × List Event) :=
  match s.stop with
  | .idle =>
    if s.system.server.running then
      some ({ s with
        system := { s.system with server := { s.system.server with running := false, draining := true } }
        stop := .test }, [])
    else some (s, [])
  | .test => some ({ s with stop := if s.listenFd = none then .join else .close }, [])
  | .close => some ({ s with stop := .invalidate }, s.listenFd.toList.map .closed)
  | .invalidate => some ({ s with stop := .join, listenFd := none }, [])
  | .join => if s.system.accept = .exited then some ({ s with stop := .drain }, []) else none
  | .drain =>
    if drains then
      some ({ s with
        system := { s.system with server := { s.system.server with draining := false } }
        stop := .wait }, [])
    else some ({ s with stop := .wait }, [])
  | .wait => if s.system.workers.all (·.phase = .done) then some ({ s with stop := .idle }, []) else none

/-- Every order of the steps of the accept thread, the workers and the thread
that stops the server and may start it again. -/
inductive Step (cfg : Config) (drains : Bool) : Listening → List Event → Listening → Prop
  | start (s : Listening) (hstop : s.stop = .idle) (hexited : s.system.accept = .exited)
    (hidle : s.system.server.running = false) :
    Step cfg drains s []
      { s with
        system := { s.system with accept := .top, server := { s.system.server with running := true } }
        listenFd := some s.opened
        opened := s.opened + 1 }
  | accept (s s' : Listening) (reply : AcceptReply) (events : List Event)
    (h : listenStep cfg reply s = some (s', events)) : Step cfg drains s events s'
  | stop (s s' : Listening) (events : List Event) (h : akTcpServerStop drains s = some (s', events)) :
    Step cfg drains s events s'
  | worker (s : Listening) (k : Nat) (w w' : Worker) (server : Server) (events : List ServerEvent)
    (hk : s.system.workers[k]? = some w) (h : workerStep s.system.server w = some (w', server, events)) :
    Step cfg drains s [] { s with system := { s.system with server, workers := s.system.workers.set k w' } }

def Listening.new : Listening := ⟨akTcpServerNew, none, .argument, .idle, 0⟩

def Uses (fd : Nat) (e : Event) : Prop := e = .polled fd ∨ e = .accepted fd

def Closes (fd : Nat) (e : Event) : Prop := e = .closed fd

/-- The listening descriptor is closed only when the accept thread has not read
it for a call it has still to issue, and is not read between its being closed
and its being set invalid. -/
def ClosesUnread (s : Listening) (events : List Event) : Prop :=
  (∀ fd, .closed fd ∈ events → ∀ k, s.call ≠ .holds (some k)) ∧ (.read ∈ events → s.stop ≠ .invalidate)

section Moves

variable {cfg : Config} {drains : Bool} {reply : AcceptReply} {s s' : Listening} {events : List Event}

inductive ListenMove (cfg : Config) (s : Listening) : Listening → List Event → Prop
  | read (hp : listens s.system.accept) (hcall : s.call = .argument) :
    ListenMove cfg s { s with call := .holds s.listenFd } [.read]
  | issue (fd : Option Nat) (hp : listens s.system.accept) (hcall : s.call = .holds fd) :
    ListenMove cfg s { s with call := .inside fd } (issued s.system.accept fd)
  | rest (system : System) (events : List ServerEvent) (reply : AcceptReply)
    (hcall : listens s.system.accept = false ∨ ∃ fd, s.call = .inside fd)
    (h : acceptStep cfg s.system reply = some (system, events)) :
    ListenMove cfg s { s with system, call := if listens s.system.accept then .argument else s.call } []

theorem listenStep_move (h : listenStep cfg reply s = some (s', events)) : ListenMove cfg s s' events := by
  rw [listenStep] at h
  split_ifs at h with hp
  · split at h
    · rename_i hcall
      cases h
      exact .read hp hcall
    · rename_i fd hcall
      cases h
      exact .issue fd hp hcall
    · rename_i fd hcall
      obtain ⟨⟨system, serverEvents⟩, haccept, heq⟩ := Option.map_eq_some_iff.mp h
      have hmove := ListenMove.rest system serverEvents _ (.inr ⟨fd, hcall⟩) haccept
      rw [if_pos hp] at hmove
      cases heq
      exact hmove
  · obtain ⟨⟨system, serverEvents⟩, haccept, heq⟩ := Option.map_eq_some_iff.mp h
    have hmove := ListenMove.rest system serverEvents _ (.inl (by simpa using hp)) haccept
    rw [if_neg hp] at hmove
    cases heq
    exact hmove

inductive StopMove (s : Listening) : Listening → List Event → Prop
  | close : StopMove s { s with stop := .invalidate } (s.listenFd.toList.map .closed)
  | invalidate (hstop : s.stop = .invalidate) : StopMove s { s with stop := .join, listenFd := none } []
  | rest (server : Server) (stop : StopPhase) (hstop : s.stop = .invalidate → stop = .invalidate)
    (hstop' : stop ≠ .invalidate) : StopMove s { s with system := { s.system with server }, stop } []

theorem akTcpServerStop_move (h : akTcpServerStop drains s = some (s', events)) : StopMove s s' events := by
  obtain ⟨system, listenFd, call, stop, opened⟩ := s
  cases stop with
  | close =>
      cases h
      exact .close
  | invalidate =>
      cases h
      exact .invalidate rfl
  | test =>
      cases h
      split_ifs
      · exact .rest system.server _ nofun nofun
      · exact .rest system.server _ nofun nofun
  | idle | join | drain | wait =>
      simp only [akTcpServerStop] at h
      split_ifs at h
      all_goals
        cases h
        exact .rest _ _ nofun nofun

end Moves

structure ListeningOk (s : Listening) : Prop where
  named : ∀ k, s.listenFd = some k → k < s.opened
  held : ∀ k, s.call = .holds (some k) → s.listenFd = some k ∧ s.stop ≠ .invalidate
  calling : listens s.system.accept = false → s.call = .argument

theorem ListeningOk.step {cfg : Config} {drains : Bool} {s s' : Listening} {events : List Event} (h : ListeningOk s)
    (hs : guarded ClosesUnread (Step cfg drains) s events s') : ListeningOk s' := by
  obtain ⟨hstep, hclose, hread⟩ := hs
  cases hstep with
  | start hstop hexited hidle =>
      have hcall := h.calling (by rw [hexited]; rfl)
      refine ⟨?_, ?_, fun _ => hcall⟩
      · rintro k ⟨⟩
        exact Nat.lt_succ_self _
      · simp [hcall]
  | accept _ reply _ haccept =>
      cases listenStep_move haccept with
      | read hp hcall =>
          refine ⟨h.named, fun k hk => ?_, fun hp' => ?_⟩
          · exact ⟨by simpa using hk, hread (by simp)⟩
          · simp [hp] at hp'
      | issue fd hp hcall => exact ⟨h.named, nofun, fun hp' => by simp [hp] at hp'⟩
      | rest system serverEvents reply hcall haccept =>
          have hargument : (if listens s.system.accept then ListenCall.argument else s.call) = .argument := by
            split_ifs with hp
            · rfl
            · exact h.calling (by simpa using hp)
          refine ⟨h.named, ?_, fun _ => hargument⟩
          simp [hargument]
  | stop _ _ hstop =>
      cases akTcpServerStop_move hstop with
      | close =>
          refine ⟨h.named, fun k hk => ?_, h.calling⟩
          have hfd := (h.held k hk).1
          exact absurd hk (hclose k (by simp [hfd]) k)
      | invalidate hinvalid => exact ⟨nofun, fun k hk => absurd hinvalid (h.held k hk).2, h.calling⟩
      | rest server stop hkeep hstop' => exact ⟨h.named, fun k hk => ⟨(h.held k hk).1, hstop'⟩, h.calling⟩
  | worker k w w' server _ hk hworker => exact ⟨h.named, h.held, h.calling⟩

def Gone (fd : Nat) (s : Listening) : Prop := fd < s.opened ∧ (s.listenFd = some fd → s.stop = .invalidate)

theorem issued_closes (p : AcceptPhase) (fd : Option Nat) (k : Nat) : .closed k ∉ issued p fd := by
  cases p <;> simp [issued]

theorem issued_uses {p : AcceptPhase} {fd : Option Nat} {k : Nat} {e : Event} (he : e ∈ issued p fd) (hk : Uses k e) :
    fd = some k := by
  cases p with
  | poll =>
      simp only [issued, List.mem_map, Option.mem_toList] at he
      obtain ⟨m, hm, rfl⟩ := he
      simpa [Uses] using hk.elim (fun h => by cases h; exact hm) nofun
  | accept =>
      simp only [issued, List.mem_map, Option.mem_toList] at he
      obtain ⟨m, hm, rfl⟩ := he
      simpa [Uses] using hk.elim nofun (fun h => by cases h; exact hm)
  | top | recheck | limit | track | rejectIp | rejectRate | onConnect | context | countIn | task | lambda | enqueue
    | undo | untrack | close | exited => cases he

theorem gone_of_close {cfg : Config} {drains : Bool} {s s' : Listening} {events : List Event} {fd : Nat}
    (h : ListeningOk s) (hstep : Step cfg drains s events s') (hclosed : .closed fd ∈ events) : Gone fd s' := by
  cases hstep with
  | start | worker => cases hclosed
  | accept _ reply _ haccept =>
      cases listenStep_move haccept with
      | read => simp at hclosed
      | issue k hp hcall => exact absurd hclosed (issued_closes _ _ _)
      | rest => cases hclosed
  | stop _ _ hstop =>
      cases akTcpServerStop_move hstop with
      | close => exact ⟨h.named fd (by simpa using hclosed), fun _ => rfl⟩
      | invalidate | rest => cases hclosed

theorem Gone.step {cfg : Config} {drains : Bool} {s s' : Listening} {events : List Event} {fd : Nat}
    (hgone : Gone fd s) (h : ListeningOk s) (hstep : Step cfg drains s events s') :
    Gone fd s' ∧ ∀ u ∈ events, ¬Uses fd u := by
  cases hstep with
  | start hstop hexited hidle =>
      refine ⟨⟨hgone.1.trans (Nat.lt_succ_self _), ?_⟩, nofun⟩
      rintro ⟨⟩
      exact absurd hgone.1 (Nat.lt_irrefl _)
  | worker => exact ⟨hgone, nofun⟩
  | accept _ reply _ haccept =>
      cases listenStep_move haccept with
      | read => exact ⟨hgone, by simp [Uses]⟩
      | issue k hp hcall =>
          refine ⟨hgone, fun u hu huses => ?_⟩
          have hfd := issued_uses hu huses
          subst hfd
          exact (h.held fd hcall).2 (hgone.2 (h.held fd hcall).1)
      | rest => exact ⟨hgone, nofun⟩
  | stop _ _ hstop =>
      cases akTcpServerStop_move hstop with
      | close => exact ⟨⟨hgone.1, fun _ => rfl⟩, by simp [Uses]⟩
      | invalidate => exact ⟨⟨hgone.1, nofun⟩, nofun⟩
      | rest server stop hkeep hstop' => exact ⟨⟨hgone.1, fun hfd => hkeep (hgone.2 hfd)⟩, nofun⟩

/-- No call is issued on a listening descriptor that is closed, if it is closed only
when the accept thread has not read it. -/
theorem no_listen_call_after_close {cfg : Config} {drains : Bool} {trace : List Event} {s : Listening}
    (hrun : Run (guarded ClosesUnread (Step cfg drains)) Listening.new trace s) (fd : Nat) :
    NoUseAfter (Closes fd) (Uses fd) trace := by
  apply hrun.no_use_after ListeningOk (Gone fd)
  · exact ⟨nofun, nofun, fun _ => rfl⟩
  · exact fun s events s' h hs => h.step hs
  · rintro s events s' h ⟨hstep, -⟩
    cases hstep with
    | start | worker => exact List.Pairwise.nil
    | accept _ reply _ haccept =>
        apply NoUseAfter.of_no_end
        cases listenStep_move haccept with
        | read => simp [Closes]
        | issue k hp hcall =>
            rintro e he rfl
            exact issued_closes _ _ _ he
        | rest => nofun
    | stop _ _ hstop =>
        apply NoUseAfter.of_no_use
        cases akTcpServerStop_move hstop with
        | close => simp [Uses]
        | invalidate | rest => nofun
  · rintro s events s' h ⟨hstep, -⟩ e he rfl
    exact gone_of_close h hstep he
  · exact fun s events s' h hs hgone => hgone.step h hs.1

section Server

variable {cfg : Config} {drains : Bool} {s s' : Listening} {events : List Event} {trace : List Event}

def Joined (s : Listening) : Prop := s.stop = .drain → s.system.accept = .exited

theorem akTcpServerStop_server (cfg : Config) (hjoined : Joined s) (h : akTcpServerStop drains s = some (s', events)) :
    Joined s' ∧ (s'.system = s.system ∨ TcpServerModel.Step cfg s.system [] s'.system) := by
  obtain ⟨system, listenFd, call, stop, opened⟩ := s
  cases stop with
  | idle =>
      simp only [akTcpServerStop] at h
      split_ifs at h with hrunning
      · cases h
        exact ⟨nofun, .inr (.stop system hrunning)⟩
      · cases h
        exact ⟨hjoined, .inl rfl⟩
  | test =>
      cases h
      split_ifs
      · exact ⟨nofun, .inl rfl⟩
      · exact ⟨nofun, .inl rfl⟩
  | close | invalidate =>
      cases h
      exact ⟨nofun, .inl rfl⟩
  | join =>
      simp only [akTcpServerStop] at h
      split_ifs at h with hexited
      cases h
      exact ⟨fun _ => hexited, .inl rfl⟩
  | drain =>
      simp only [akTcpServerStop] at h
      split_ifs at h
      · cases h
        exact ⟨nofun, .inr (.drain system (hjoined rfl))⟩
      · cases h
        exact ⟨nofun, .inl rfl⟩
  | wait =>
      simp only [akTcpServerStop] at h
      split_ifs at h
      cases h
      exact ⟨nofun, .inl rfl⟩

theorem Step.server (hjoined : Joined s) (h : Step cfg drains s events s') :
    Joined s' ∧ (s'.system = s.system ∨ ∃ serverEvents, TcpServerModel.Step cfg s.system serverEvents s'.system) := by
  cases h with
  | start hstop hexited hidle => exact ⟨by simp [Joined, hstop], .inr ⟨_, .start s.system hexited hidle⟩⟩
  | accept _ reply _ haccept =>
      cases listenStep_move haccept with
      | read | issue => exact ⟨hjoined, .inl rfl⟩
      | rest system serverEvents reply hcall hserver =>
          refine ⟨fun hdrain => ?_, .inr ⟨_, .accept _ _ _ _ hserver⟩⟩
          simp [acceptStep, hjoined hdrain] at hserver
  | stop _ _ hstop =>
      obtain ⟨hjoined', hsystem⟩ := akTcpServerStop_server cfg hjoined hstop
      exact ⟨hjoined', hsystem.imp_right fun hserver => ⟨_, hserver⟩⟩
  | worker k w w' server serverEvents hk hworker => exact ⟨hjoined, .inr ⟨_, .worker _ k w w' _ _ hk hworker⟩⟩

/-- Whatever becomes of the listening descriptor, the server's part of a run is
a run of its threads as they stand without it. -/
theorem run_server (hrun : Run (Step cfg drains) Listening.new trace s) :
    ∃ serverTrace, Run (TcpServerModel.Step cfg) akTcpServerNew serverTrace s.system := by
  have hinv : Joined s ∧ ∃ serverTrace, Run (TcpServerModel.Step cfg) akTcpServerNew serverTrace s.system := by
    apply hrun.invariant
      (P := fun _ s => Joined s ∧ ∃ serverTrace, Run (TcpServerModel.Step cfg) akTcpServerNew serverTrace s.system)
    · exact ⟨nofun, [], .start⟩
    · rintro _ s events s' ⟨hjoined, serverTrace, hserver⟩ hstep
      obtain ⟨hjoined', hsame | ⟨serverEvents, hmove⟩⟩ := hstep.server hjoined
      · exact ⟨hjoined', serverTrace, hsame ▸ hserver⟩
      · exact ⟨hjoined', _, hserver.next hmove⟩
  exact hinv.2

end Server

section Schedules

def config : Config := ⟨0, 0, 0, false, false⟩

def quiet : AcceptReply := ⟨.timeout, none, true, 0, true, true, true, true, true, true⟩

theorem read_run {G : Listening → List Event → Prop} (hG : ∀ s, s.stop = .idle → G s [] ∧ G s [.read]) :
    Run (guarded G (Step config true)) Listening.new [.read]
      ⟨⟨⟨true, false, 0, [], fun _ => 0⟩, .poll, [], 0⟩, some 0, .holds (some 0), .idle, 1⟩ := by
  have r₁ : Run (guarded G (Step config true)) Listening.new _ _ := .next .start ⟨.start _ rfl rfl rfl, (hG _ rfl).1⟩
  have r₂ := r₁.next ⟨.accept _ _ quiet _ rfl, (hG _ rfl).1⟩
  exact r₂.next ⟨.accept _ _ quiet _ rfl, (hG _ rfl).2⟩

theorem closesUnread_quiet {s : Listening} {events : List Event} (hclosed : ∀ fd, .closed fd ∉ events)
    (hread : .read ∉ events) : ClosesUnread s events :=
  ⟨fun fd hfd => absurd hfd (hclosed fd), fun h => absurd h hread⟩

/-- The descriptor is closed while the accept thread is inside its poll. -/
theorem close_during_poll : ∃ trace s, Run (guarded ClosesUnread (Step config true)) Listening.new trace s ∧
    trace = [.read, .polled 0, .closed 0] ∧ NoUseAfter (Closes 0) (Uses 0) trace := by
  have r₀ := read_run (G := ClosesUnread) fun s hs =>
    ⟨closesUnread_quiet nofun nofun, ⟨by simp, fun _ => by simp [hs]⟩⟩
  have r₁ := r₀.next ⟨.accept _ _ quiet [.polled 0] rfl, closesUnread_quiet (by simp) (by simp)⟩
  have r₂ := r₁.next ⟨.stop _ _ _ rfl, closesUnread_quiet nofun nofun⟩
  have r₃ := r₂.next ⟨.stop _ _ _ rfl, closesUnread_quiet nofun nofun⟩
  have r₄ := r₃.next ⟨.stop _ _ [.closed 0] rfl, ⟨by simp, by simp⟩⟩
  exact ⟨_, _, r₄, rfl, no_listen_call_after_close r₄ 0⟩

/-- The descriptor is closed between the accept thread's reading it and its
poll. -/
theorem poll_on_closed_descriptor : ∃ trace s, Run (Step config true) Listening.new trace s ∧
    ¬NoUseAfter (Closes 0) (Uses 0) trace := by
  have r₀ := (read_run (G := fun _ _ => True) fun _ _ => ⟨trivial, trivial⟩).of_guarded
  have r₁ := r₀.next (.stop _ _ _ rfl)
  have r₂ := r₁.next (.stop _ _ _ rfl)
  have r₃ := r₂.next (.stop _ _ [.closed 0] rfl)
  have r₄ := r₃.next (.accept _ _ quiet [.polled 0] rfl)
  exact ⟨_, _, r₄, by simp [NoUseAfter, Closes, Uses]⟩

end Schedules

end Ak24.TcpListen
