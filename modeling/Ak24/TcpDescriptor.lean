import Ak24.TcpCalls

namespace Ak24.TcpDescriptor

open TcpCalls Transition

/-- One thread calls the transfer functions of a context, another one closes it. -/
structure Duo where
  conn : Conn
  call : Option CallPhase

/-- Every order of the two threads' steps; a returned call may be followed by
another. -/
inductive Step : Duo → List Event → Duo → Prop
  | begin (s : Duo) (p : CallPhase) (hidle : s.call = none) (hp : begins p) : Step s [] { s with call := some p }
  | call (s : Duo) (p p' : CallPhase) (reply : Reply) (conn : Conn) (events : List Event) (hp : s.call = some p)
    (h : callStep s.conn reply p = some (p', conn, events)) : Step s events ⟨conn, some p'⟩
  | done (s : Duo) (r : Returned) (hr : s.call = some (.returned r)) : Step s [] { s with call := none }
  | close (s : Duo) : Step s (akTcpClose s.conn).2 { s with conn := (akTcpClose s.conn).1 }

def Duo.start (fd : Nat) (ssl : Option Nat) (maxRecvBufferBytes : Nat) : Duo :=
  ⟨⟨true, some fd, ssl, maxRecvBufferBytes, 0⟩, none⟩

def Uses (e : Event) : Prop := (∃ fd, e = .usedFd fd) ∨ ∃ ssl, e = .usedSsl ssl

def Ends (e : Event) : Prop := (∃ fd, e = .closedFd fd) ∨ ∃ ssl, e = .freedSsl ssl

def holdsCopy : CallPhase → Bool
  | .sendSsl _ toSend => 0 < toSend
  | .sending _ _ toSend sent => sent < toSend
  | .recvSsl .. | .receiving .. | .untilReceiving .. => true
  | _ => false

/-- The context is closed only when no call has a copy to use. -/
def ClosesUnheld (s : Duo) (events : List Event) : Prop :=
  (∃ e ∈ events, Ends e) → ∀ p, s.call = some p → holdsCopy p = false

section Steps

variable {c c' : Conn} {reply : Reply} {p p' : CallPhase} {events : List Event}

theorem transferEvents_ends (fd ssl : Option Nat) (e : Event) (he : e ∈ transferEvents fd ssl) : ¬Ends e := by
  cases ssl with
  | some ssl =>
      simp only [transferEvents, List.mem_singleton] at he
      simp [he, Ends]
  | none =>
      simp only [transferEvents, List.mem_map] at he
      obtain ⟨k, -, rfl⟩ := he
      simp [Ends]

structure StepOk (c : Conn) (p' : CallPhase) (c' : Conn) (events : List Event) : Prop where
  ends : ∀ e ∈ events, ¬Ends e
  uses : ∀ e ∈ events, Uses e → c.alive = true
  held : holdsCopy p' → c'.alive = true
  dead : c'.alive = true → c.alive = true
  kept : (c'.fd, c'.ssl) = (c.fd, c.ssl)

theorem StepOk.touch (hheld : holdsCopy p' → c'.alive = true) (hdead : c'.alive = true → c.alive = true)
    (hkept : (c'.fd, c'.ssl) = (c.fd, c.ssl)) : StepOk c p' c' [.touched] := by
  refine ⟨?_, ?_, hheld, hdead, hkept⟩
  · simp [Ends]
  · simp [Uses]

theorem akTcpIsAlive_ok (peerClosed : Bool) (hp' : holdsCopy p' = false) :
    StepOk c p' (akTcpIsAlive c peerClosed).2.1 (akTcpIsAlive c peerClosed).2.2 := by
  rw [akTcpIsAlive]
  split
  · next fd halive hfd =>
      split_ifs
      · exact ⟨by simp [Ends], fun _ _ _ => halive, by simp [hp'], nofun, rfl⟩
      · exact ⟨by simp [Ends], fun _ _ _ => halive, by simp [hp'], id, rfl⟩
  · exact .touch (by simp [hp']) id rfl

theorem StepOk.transfer (halive : c.alive = true) (fd ssl : Option Nat) : StepOk c p' c (transferEvents fd ssl) :=
  ⟨transferEvents_ends fd ssl, fun _ _ _ => halive, fun _ => halive, id, rfl⟩

theorem akTcpSend_ok (hheld : holdsCopy p → c.alive = true) (h : akTcpSend c reply p = some (p', c', events)) :
    StepOk c p' c' events := by
  cases p with
  | send toSend =>
      simp only [akTcpSend] at h
      split_ifs at h with hdead
      · cases h
        exact .touch nofun id rfl
      · cases h
        exact .touch (fun _ => by simpa using hdead) id rfl
  | sendSsl fd toSend =>
      cases h
      exact .touch hheld id rfl
  | sending fd ssl toSend sent =>
      simp only [akTcpSend] at h
      split_ifs at h with hleft
      · have halive := hheld (by simpa [holdsCopy] using hleft)
        split at h
        all_goals
          cases h
          exact .transfer halive fd ssl
      · cases h
        exact ⟨nofun, nofun, nofun, id, rfl⟩
  | sendClosed =>
      cases h
      exact .touch nofun nofun rfl
  | recv | recvSsl | receiving | recvClosed | recvCount | recvUntil | untilAlive | untilCopy | untilReceiving | untilClosed
    | untilCount | returned => cases h

theorem akTcpRecv_ok (hheld : holdsCopy p → c.alive = true) (h : akTcpRecv c reply p = some (p', c', events)) :
    StepOk c p' c' events := by
  cases p with
  | recv maxBytes =>
      simp only [akTcpRecv] at h
      split_ifs at h with hdead
      · cases h
        exact .touch nofun id rfl
      · cases h
        exact .touch nofun id rfl
      · cases h
        exact .touch (fun _ => by simpa using hdead) id rfl
  | recvSsl fd toRecv =>
      cases h
      exact .touch hheld id rfl
  | receiving fd ssl toRecv =>
      have halive := hheld rfl
      simp only [akTcpRecv] at h
      split at h
      · cases h
        exact .transfer halive fd ssl
      · split_ifs at h
        all_goals
          cases h
          exact .transfer halive fd ssl
  | recvClosed =>
      cases h
      exact .touch nofun nofun rfl
  | recvCount received =>
      cases h
      exact .touch nofun id rfl
  | send | sendSsl | sending | sendClosed | recvUntil | untilAlive | untilCopy | untilReceiving | untilClosed
    | untilCount | returned => cases h

theorem akTcpRecvUntil_ok (hheld : holdsCopy p → c.alive = true)
    (h : akTcpRecvUntil c reply p = some (p', c', events)) : StepOk c p' c' events := by
  cases p with
  | recvUntil delim maxBytes =>
      simp only [akTcpRecvUntil] at h
      split_ifs at h
      all_goals
        cases h
        exact ⟨by simp, by simp, by simp [holdsCopy, failUntil], id, rfl⟩
  | untilAlive delim maxBytes result =>
      simp only [akTcpRecvUntil] at h
      cases hfind : TcpModel.findDelim delim result with
      | none | some =>
          simp only [hfind] at h
          split_ifs at h
          all_goals
            cases h
            exact akTcpIsAlive_ok _ rfl
  | untilCopy delim maxBytes result =>
      simp only [akTcpRecvUntil] at h
      split_ifs at h with hdead
      · cases h
        exact .touch (by simp [holdsCopy, finishUntil]) id rfl
      · cases h
        exact .touch (by simp [holdsCopy, failUntil]) id rfl
      · cases h
        exact .touch (fun _ => by simpa using hdead) id rfl
  | untilReceiving fd ssl toRecv delim maxBytes result =>
      have halive := hheld rfl
      simp only [akTcpRecvUntil] at h
      split at h
      · cases h
        exact .transfer halive fd ssl
      · split_ifs at h
        all_goals
          cases h
          exact .transfer halive fd ssl
  | untilClosed result =>
      cases h
      exact .touch (by simp [holdsCopy, finishUntil]) (by simp) rfl
  | untilCount received delim maxBytes result =>
      cases h
      exact .touch (by simp [holdsCopy]) id rfl
  | send | sendSsl | sending | sendClosed | recv | recvSsl | receiving | recvClosed | recvCount | returned => cases h

theorem callStep_ok (hheld : holdsCopy p → c.alive = true) (h : callStep c reply p = some (p', c', events)) :
    StepOk c p' c' events := by
  cases p with
  | send | sendSsl | sending | sendClosed =>
      simp only [callStep] at h
      exact akTcpSend_ok hheld h
  | recv | recvSsl | receiving | recvClosed | recvCount =>
      simp only [callStep] at h
      exact akTcpRecv_ok hheld h
  | recvUntil | untilAlive | untilCopy | untilReceiving | untilClosed | untilCount =>
      simp only [callStep] at h
      exact akTcpRecvUntil_ok hheld h
  | returned => cases h

theorem akTcpClose_alive (c : Conn) : (akTcpClose c).1.alive = false := by
  rw [akTcpClose]
  split_ifs with halive
  · rfl
  · simpa using halive

theorem akTcpClose_dead (hdead : c.alive = false) : akTcpClose c = (c, []) := by
  rw [akTcpClose, if_neg (by simp [hdead])]

theorem release_noUseAfter (fd ssl : Option Nat) : NoUseAfter Ends Uses (releaseSsl ssl ++ fd.toList.map .closedFd) := by
  cases ssl <;> cases fd <;> simp [NoUseAfter, releaseSsl, Ends, Uses]

theorem akTcpClose_noUseAfter (c : Conn) : NoUseAfter Ends Uses (akTcpClose c).2 := by
  rw [akTcpClose]
  split_ifs
  · exact release_noUseAfter c.fd c.ssl
  · exact List.Pairwise.nil

theorem akTcpClose_ends (halive : c.alive = true) (hfd : c.fd ≠ none) : ∃ e ∈ (akTcpClose c).2, Ends e := by
  obtain ⟨fd, hfd⟩ := Option.ne_none_iff_exists'.mp hfd
  exact ⟨.closedFd fd, by simp [akTcpClose, halive, hfd], .inl ⟨fd, rfl⟩⟩

end Steps

structure DuoOk (s : Duo) : Prop where
  held : ∀ p, s.call = some p → holdsCopy p → s.conn.alive = true
  opened : s.conn.alive = true → s.conn.fd ≠ none

theorem DuoOk.step {s s' : Duo} {events : List Event} (h : DuoOk s) (hs : guarded ClosesUnheld Step s events s') :
    DuoOk s' := by
  obtain ⟨hstep, hunheld⟩ := hs
  cases hstep with
  | begin p hidle hp =>
      refine ⟨?_, h.opened⟩
      rintro _ ⟨⟩ hheld
      cases p <;> simp [begins, holdsCopy] at hp hheld
  | call p p' reply conn _ hp hcall =>
      have hok := callStep_ok (h.held p hp) hcall
      refine ⟨?_, fun halive => ?_⟩
      · rintro _ ⟨⟩ hheld
        exact hok.held hheld
      · rw [(Prod.mk.inj hok.kept).1]
        exact h.opened (hok.dead halive)
  | done r hr => exact ⟨nofun, h.opened⟩
  | close =>
      refine ⟨fun p hp hheld => ?_, ?_⟩
      · have halive := h.held p hp hheld
        rw [hunheld (akTcpClose_ends halive (h.opened halive)) p hp] at hheld
        cases hheld
      · simp [akTcpClose_alive]

/-- No descriptor and no SSL object is used once it is closed, if a context is closed
only while no call has a copy to use. -/
theorem no_descriptor_use_after_close {fd : Nat} {ssl : Option Nat} {maxRecvBufferBytes : Nat} {trace : List Event}
    {s : Duo} (hrun : Run (guarded ClosesUnheld Step) (Duo.start fd ssl maxRecvBufferBytes) trace s) :
    NoUseAfter Ends Uses trace := by
  apply hrun.no_use_after DuoOk (fun s => s.conn.alive = false)
  · exact ⟨nofun, nofun⟩
  · exact fun s events s' h hs => h.step hs
  · rintro s events s' h ⟨hstep, -⟩
    cases hstep with
    | begin | done => exact List.Pairwise.nil
    | call p p' reply conn _ hp hcall => exact .of_no_end (callStep_ok (h.held p hp) hcall).ends
    | close => exact akTcpClose_noUseAfter s.conn
  · rintro s events s' h ⟨hstep, -⟩ e he hends
    cases hstep with
    | begin | done => cases he
    | call p p' reply conn _ hp hcall => exact absurd hends ((callStep_ok (h.held p hp) hcall).ends e he)
    | close => exact akTcpClose_alive s.conn
  · rintro s events s' h ⟨hstep, -⟩ hgone
    cases hstep with
    | begin | done => exact ⟨hgone, nofun⟩
    | call p p' reply conn _ hp hcall =>
        have hok := callStep_ok (h.held p hp) hcall
        refine ⟨?_, fun u hu huses => ?_⟩
        · rw [← Bool.not_eq_true] at hgone ⊢
          exact fun halive => hgone (hok.dead halive)
        · rw [hok.uses u hu huses] at hgone
          cases hgone
    | close => exact ⟨akTcpClose_alive s.conn, by simp [akTcpClose_dead hgone]⟩

theorem closesUnheld_of_no_end {s : Duo} {events : List Event} (h : ∀ e ∈ events, ¬Ends e) : ClosesUnheld s events := by
  rintro ⟨e, he, hends⟩
  exact absurd hends (h e he)

/-- A receive that is over before the close. -/
theorem recv_then_close : ∃ s, Run (guarded ClosesUnheld Step) (Duo.start 5 none 0)
    [.touched, .touched, .usedFd 5, .touched, .closedFd 5] s ∧
    NoUseAfter Ends Uses [.touched, .touched, .usedFd 5, .touched, .closedFd 5] := by
  let G := guarded ClosesUnheld Step
  let reply : Reply := ⟨none, some [65], "", false, true⟩
  have r₁ : Run G (Duo.start 5 none 0) [] ⟨⟨true, some 5, none, 0, 0⟩, some (.recv 16)⟩ :=
    .next .start ⟨.begin _ _ rfl rfl, nofun⟩
  have r₂ : Run G (Duo.start 5 none 0) [.touched] ⟨⟨true, some 5, none, 0, 0⟩, some (.recvSsl (some 5) 16)⟩ :=
    r₁.next ⟨.call _ _ _ reply _ _ rfl rfl, closesUnheld_of_no_end (by simp [Ends])⟩
  have r₃ : Run G (Duo.start 5 none 0) [.touched, .touched]
      ⟨⟨true, some 5, none, 0, 0⟩, some (.receiving (some 5) none 16)⟩ :=
    r₂.next ⟨.call _ _ _ reply _ _ rfl rfl, closesUnheld_of_no_end (by simp [Ends])⟩
  have r₄ : Run G (Duo.start 5 none 0) [.touched, .touched, .usedFd 5]
      ⟨⟨true, some 5, none, 0, 0⟩, some (.recvCount 1)⟩ :=
    r₃.next ⟨.call _ _ _ reply _ [.usedFd 5] rfl rfl, closesUnheld_of_no_end (by simp [Ends])⟩
  have r₅ : Run G (Duo.start 5 none 0) [.touched, .touched, .usedFd 5, .touched]
      ⟨⟨true, some 5, none, 0, 1⟩, some (.returned (.count 1 none))⟩ :=
    r₄.next ⟨.call _ _ _ reply _ _ rfl rfl, closesUnheld_of_no_end (by simp [Ends])⟩
  have r₆ := r₅.next ⟨.close _, fun _ p hp => by cases hp; rfl⟩
  exact ⟨_, r₆, no_descriptor_use_after_close r₆⟩

/-- The context is closed between a receive's copy of the descriptor and its use
of the copy. -/
theorem recv_on_closed_descriptor : ∃ trace s, Run Step (Duo.start 5 none 0) trace s ∧ ¬NoUseAfter Ends Uses trace := by
  let reply : Reply := ⟨none, some [65], "", false, true⟩
  have r₁ : Run Step (Duo.start 5 none 0) [] ⟨⟨true, some 5, none, 0, 0⟩, some (.recv 16)⟩ :=
    .next .start (.begin _ _ rfl rfl)
  have r₂ : Run Step (Duo.start 5 none 0) [.touched] ⟨⟨true, some 5, none, 0, 0⟩, some (.recvSsl (some 5) 16)⟩ :=
    r₁.next (.call _ _ _ reply _ _ rfl rfl)
  have r₃ : Run Step (Duo.start 5 none 0) [.touched, .touched]
      ⟨⟨true, some 5, none, 0, 0⟩, some (.receiving (some 5) none 16)⟩ := r₂.next (.call _ _ _ reply _ _ rfl rfl)
  have r₄ : Run Step (Duo.start 5 none 0) [.touched, .touched, .closedFd 5]
      ⟨⟨false, none, none, 0, 0⟩, some (.receiving (some 5) none 16)⟩ := r₃.next (.close _)
  have r₅ : Run Step (Duo.start 5 none 0) [.touched, .touched, .closedFd 5, .usedFd 5] _ :=
    r₄.next (.call _ _ _ reply _ [.usedFd 5] rfl rfl)
  exact ⟨_, _, r₅, by simp [NoUseAfter, Ends, Uses]⟩

end Ak24.TcpDescriptor
