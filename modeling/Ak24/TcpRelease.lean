import Ak24.TcpDescriptor

namespace Ak24.TcpRelease

open TcpCalls Transition
open TcpDescriptor hiding Step

/-- One thread uses a context, call after call, and frees it in the end. -/
structure Session where
  conn : Conn
  call : Option CallPhase
  freed : Bool

inductive Control
  | isAlive (peerClosed : Bool)
  | shutdown
  | close
  | kill
  | abort
  deriving DecidableEq, Repr

def Control.run (c : Conn) : Control → Conn × List Event
  | .isAlive peerClosed => (akTcpIsAlive c peerClosed).2
  | .shutdown => akTcpShutdown c
  | .close => akTcpClose c
  | .kill => akTcpKill c
  | .abort => akTcpAbort c

inductive Step : Session → List Event → Session → Prop
  | begin (s : Session) (p : CallPhase) (hlive : s.freed = false) (hidle : s.call = none) (hp : begins p) :
    Step s [] { s with call := some p }
  | call (s : Session) (p p' : CallPhase) (reply : Reply) (conn : Conn) (events : List Event) (hp : s.call = some p)
    (h : callStep s.conn reply p = some (p', conn, events)) : Step s events { s with conn, call := some p' }
  | done (s : Session) (r : Returned) (hr : s.call = some (.returned r)) : Step s [] { s with call := none }
  | control (s : Session) (k : Control) (hlive : s.freed = false) (hidle : s.call = none) :
    Step s (k.run s.conn).2 { s with conn := (k.run s.conn).1 }
  | free (s : Session) (hlive : s.freed = false) (hidle : s.call = none) :
    Step s (akTcpCtxFree s.conn) { s with freed := true }

def Session.start (fd : Nat) (ssl : Option Nat) (maxRecvBufferBytes : Nat) : Session :=
  ⟨⟨true, some fd, ssl, maxRecvBufferBytes, 0⟩, none, false⟩

def releases : Event → Bool
  | .closedFd _ | .freedSsl _ => true
  | _ => false

theorem releases_iff (e : Event) : releases e ↔ Ends e := by
  cases e <;> simp [releases, Ends]

def releasedOnce (ssl fd : Option Nat) : List Event := ssl.toList.map .freedSsl ++ fd.toList.map .closedFd

def unreleased (c : Conn) : List Event := releasedOnce c.ssl c.fd

theorem akTcpCtxFree_releases (c : Conn) : (akTcpCtxFree c).filter releases = unreleased c := by
  rw [akTcpCtxFree, unreleased]
  cases c.ssl <;> cases c.fd <;> rfl

theorem filter_of_no_end {events : List Event} (h : ∀ e ∈ events, ¬Ends e) : events.filter releases = [] := by
  rw [List.filter_eq_nil_iff]
  intro e he hreleases
  exact h e he ((releases_iff e).mp hreleases)

structure ConnOk (c : Conn) : Prop where
  opened : c.alive = true → c.fd ≠ none
  wrapped : c.ssl ≠ none → c.fd ≠ none

structure CallOk (c c' : Conn) (events : List Event) : Prop where
  conn : ConnOk c'
  left : events.filter releases ++ unreleased c' = unreleased c
  ordered : NoUseAfter Ends Uses events
  ended : (∃ e ∈ events, Ends e) → c'.fd = none
  closed : c.fd = none → c'.fd = none ∧ ∀ e ∈ events, ¬Uses e

section Calls

variable {c c' : Conn} {events : List Event}

theorem CallOk.keep (h : ConnOk c) (hends : ∀ e ∈ events, ¬Ends e) (huses : ∀ e ∈ events, Uses e → c.alive = true)
    (hdead : c'.alive = true → c.alive = true) (hkept : (c'.fd, c'.ssl) = (c.fd, c.ssl)) : CallOk c c' events := by
  obtain ⟨hfd, hssl⟩ := Prod.mk.inj hkept
  refine ⟨⟨?_, ?_⟩, ?_, .of_no_end hends, ?_, ?_⟩
  · rw [hfd]
    exact fun halive => h.opened (hdead halive)
  · rw [hfd, hssl]
    exact h.wrapped
  · rw [filter_of_no_end hends, List.nil_append, unreleased, hfd, hssl, unreleased]
  · rintro ⟨e, he, hend⟩
    exact absurd hend (hends e he)
  · intro hnone
    rw [hfd]
    exact ⟨hnone, fun e he huse => h.opened (huses e he huse) hnone⟩

theorem callStep_callOk {reply : Reply} {p p' : CallPhase} (h : ConnOk c) (hheld : holdsCopy p → c.alive = true)
    (hcall : callStep c reply p = some (p', c', events)) : CallOk c c' events := by
  have hok := callStep_ok hheld hcall
  exact .keep h hok.ends hok.uses hok.dead hok.kept

theorem akTcpShutdown_callOk (h : ConnOk c) : CallOk c (akTcpShutdown c).1 (akTcpShutdown c).2 := by
  rw [akTcpShutdown]
  split
  · rename_i fd halive hfd
    apply CallOk.keep h
    · intro e he
      rcases List.mem_append.mp he with hssl | hfd
      · obtain ⟨ssl, -, rfl⟩ := List.mem_map.mp hssl
        simp [Ends]
      · simp_all [Ends]
    · exact fun _ _ _ => halive
    · simp
    · rfl
  · exact .keep h (by simp) (by simp) id rfl

theorem akTcpClose_callOk (h : ConnOk c) : CallOk c (akTcpClose c).1 (akTcpClose c).2 := by
  cases halive : c.alive with
  | false =>
      rw [akTcpClose_dead halive]
      exact .keep h (by simp) (by simp) id rfl
  | true =>
      have hopened := h.opened halive
      rw [akTcpClose, if_pos halive]
      refine ⟨⟨by simp, by simp⟩, ?_, release_noUseAfter c.fd c.ssl, fun _ => rfl, fun hnone => absurd hnone hopened⟩
      exact (List.append_nil _).trans (akTcpCtxFree_releases c)

theorem Control.run_callOk (h : ConnOk c) (k : Control) : CallOk c (k.run c).1 (k.run c).2 := by
  cases k with
  | isAlive peerClosed =>
      have hok : StepOk c .sendClosed (akTcpIsAlive c peerClosed).2.1 (akTcpIsAlive c peerClosed).2.2 :=
        akTcpIsAlive_ok peerClosed rfl
      exact .keep h hok.ends hok.uses hok.dead hok.kept
  | shutdown => exact akTcpShutdown_callOk h
  | close | kill | abort => exact akTcpClose_callOk h

end Calls

structure SessionOk (s : Session) : Prop where
  conn : ConnOk s.conn
  held : ∀ p, s.call = some p → holdsCopy p → s.conn.alive = true
  idle : s.freed = true → s.call = none

theorem SessionOk.step {s s' : Session} {events : List Event} (h : SessionOk s) (hs : Step s events s') :
    SessionOk s' := by
  cases hs with
  | begin p hlive hidle hp =>
      refine ⟨h.conn, ?_, fun hfreed => ?_⟩
      · rintro _ ⟨⟩ hheld
        cases p <;> simp [begins, holdsCopy] at hp hheld
      · simp [hlive] at hfreed
  | call p p' reply conn _ hp hcall =>
      refine ⟨(callStep_callOk h.conn (h.held p hp) hcall).conn, ?_, fun hfreed => ?_⟩
      · rintro _ ⟨⟩ hheld
        exact (callStep_ok (h.held p hp) hcall).held hheld
      · simp [h.idle hfreed] at hp
  | done r hr => exact ⟨h.conn, by simp, fun _ => rfl⟩
  | control k hlive hidle =>
      refine ⟨(k.run_callOk h.conn).conn, ?_, h.idle⟩
      simp [hidle]
  | free hlive hidle => exact ⟨h.conn, h.held, fun _ => hidle⟩

def Session.unreleased (s : Session) : List Event := if s.freed then [] else TcpRelease.unreleased s.conn

/-- What a step does not release is still to be released after it. -/
theorem SessionOk.left {s s' : Session} {events : List Event} (h : SessionOk s) (hs : Step s events s') :
    events.filter releases ++ s'.unreleased = s.unreleased := by
  cases hs with
  | begin | done => rfl
  | call p p' reply conn _ hp hcall =>
      cases hfreed : s.freed with
      | true => simp [h.idle hfreed] at hp
      | false => simpa [Session.unreleased, hfreed] using (callStep_callOk h.conn (h.held p hp) hcall).left
  | control k hlive hidle => simpa [Session.unreleased, hlive] using (k.run_callOk h.conn).left
  | free hlive hidle => simpa [Session.unreleased, hlive] using akTcpCtxFree_releases s.conn

section Runs

variable {fd : Nat} {ssl : Option Nat} {maxRecvBufferBytes : Nat} {trace : List Event} {s : Session}

theorem sessionOk_start : SessionOk (Session.start fd ssl maxRecvBufferBytes) := ⟨⟨nofun, nofun⟩, nofun, nofun⟩

theorem release_ledger (hrun : Run Step (Session.start fd ssl maxRecvBufferBytes) trace s) :
    trace.filter releases ++ s.unreleased = releasedOnce ssl (some fd) := by
  have hinv : SessionOk s ∧ trace.filter releases ++ s.unreleased = releasedOnce ssl (some fd) := by
    apply hrun.invariant
      (P := fun trace s => SessionOk s ∧ trace.filter releases ++ s.unreleased = releasedOnce ssl (some fd))
    · exact ⟨sessionOk_start, rfl⟩
    · rintro trace s events s' ⟨hok, hledger⟩ hstep
      refine ⟨hok.step hstep, ?_⟩
      rw [List.filter_append, List.append_assoc, hok.left hstep, hledger]
  exact hinv.2

theorem no_use_after_release (hrun : Run Step (Session.start fd ssl maxRecvBufferBytes) trace s) :
    NoUseAfter Ends Uses trace := by
  apply hrun.no_use_after SessionOk (fun s => s.conn.fd = none ∨ s.freed = true)
  · exact sessionOk_start
  · exact fun s events s' h hs => h.step hs
  · rintro s events s' h hstep
    cases hstep with
    | begin | done => exact List.Pairwise.nil
    | call p p' reply conn _ hp hcall => exact (callStep_callOk h.conn (h.held p hp) hcall).ordered
    | control k hlive hidle => exact (k.run_callOk h.conn).ordered
    | free => exact release_noUseAfter s.conn.fd s.conn.ssl
  · rintro s events s' h hstep e he hend
    cases hstep with
    | begin | done => cases he
    | call p p' reply conn _ hp hcall => exact .inl ((callStep_callOk h.conn (h.held p hp) hcall).ended ⟨e, he, hend⟩)
    | control k hlive hidle => exact .inl ((k.run_callOk h.conn).ended ⟨e, he, hend⟩)
    | free => exact .inr rfl
  · rintro s events s' h hstep hgone
    cases hstep with
    | begin | done => exact ⟨hgone, nofun⟩
    | call p p' reply conn _ hp hcall =>
        have hfreed : s.freed ≠ true := fun hfreed => by simp [h.idle hfreed] at hp
        have hclosed := (callStep_callOk h.conn (h.held p hp) hcall).closed (hgone.resolve_right hfreed)
        exact ⟨.inl hclosed.1, hclosed.2⟩
    | control k hlive hidle =>
        have hclosed := (k.run_callOk h.conn).closed (hgone.resolve_right (by simp [hlive]))
        exact ⟨.inl hclosed.1, hclosed.2⟩
    | free hlive hidle =>
        have hfd : s.conn.fd = none := hgone.resolve_right (by simp [hlive])
        have hssl : s.conn.ssl = none := by
          by_contra hssl
          exact h.conn.wrapped hssl hfd
        exact ⟨.inr rfl, by simp [akTcpCtxFree, hfd, hssl, releaseSsl]⟩

/-- The SSL object is freed once, then the descriptor closed once, and neither
is used after that. -/
theorem released_exactly_once (hrun : Run Step (Session.start fd ssl maxRecvBufferBytes) trace s)
    (hfreed : s.freed = true) :
    trace.filter releases = releasedOnce ssl (some fd) ∧ NoUseAfter Ends Uses trace := by
  refine ⟨?_, no_use_after_release hrun⟩
  simpa [Session.unreleased, hfreed] using release_ledger hrun

end Runs

/-- The peer's close is noticed, the half-close and the close then leave
everything to `ak_tcp_ctx_free`. -/
theorem peer_closed_then_freed : ∃ trace s, Run Step (Session.start 5 (some 2) 0) trace s ∧ s.freed = true ∧
    trace.filter releases = [.freedSsl 2, .closedFd 5] ∧ NoUseAfter Ends Uses trace := by
  have r₁ : Run Step (Session.start 5 (some 2) 0) _ _ := .next .start (.control _ (.isAlive true) rfl rfl)
  have r₂ := r₁.next (.control _ .shutdown rfl rfl)
  have r₃ := r₂.next (.control _ .close rfl rfl)
  have r₄ := r₃.next (.free _ rfl rfl)
  obtain ⟨hreleased, hused⟩ := released_exactly_once r₄ rfl
  exact ⟨_, _, r₄, rfl, hreleased, hused⟩

end Ak24.TcpRelease
