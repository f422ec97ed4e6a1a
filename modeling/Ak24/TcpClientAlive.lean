import Ak24.TcpClientContext

namespace Ak24.TcpClientAlive

open TcpCalls TcpClientModel TcpClientContext Transition

/-- The client has a context, and no call has found its peer gone. -/
def Connected (w : World) : Prop := ∃ c conn, w.client.ctx = some c ∧ w.conns c = some conn ∧ conn.alive = true

/-- `ak_tcp_client_connect` is called in the state `AK_TCP_CLIENT_CONNECTED` only
while no call has found the peer of the context gone. -/
def ConnectsUnlost (s : System 1) (events : List ClientEvent) (s' : System 1) : Prop :=
  Step s events s' ∧ (s.apps 0 = .idle → s'.apps 0 = .connect → s.world.client.state = .connected →
    ∀ c, s.world.client.ctx = some c → (s.world.conn c).alive = true)

structure WorldOk (w : World) : Prop where
  live : ∀ c, w.client.ctx = some c → ∃ conn, w.conns c = some conn
  ctx : w.client.state = .connected → ∃ c, w.client.ctx = some c

section Worlds

variable {w w' : World}

theorem connected_clientDoConnect (w : World) (opened : Opened) : Connected (clientDoConnect w opened) :=
  ⟨w.made, _, rfl, if_pos rfl, rfl⟩

theorem Connected.client (h : Connected w) (he : ClientEffect w w') : Connected w' := by
  obtain ⟨c, conn, hctx, hconn, halive⟩ := h
  cases he with
  | keep client hkeep => exact ⟨c, conn, hkeep.trans hctx, hconn, halive⟩
  | connect opened => exact connected_clientDoConnect w opened

theorem WorldOk.client (h : WorldOk w) (he : ClientEffect w w') : WorldOk w' := by
  cases he with
  | keep client hctx hstate =>
      constructor
      · exact fun c hc => h.live c (hctx.symm.trans hc)
      · intro hconnected
        rcases hstate with hsame | hother
        · obtain ⟨c, hc⟩ := h.ctx (hsame.symm.trans hconnected)
          exact ⟨c, hctx.trans hc⟩
        · exact absurd hconnected hother
  | connect opened =>
      refine ⟨fun c hc => ?_, fun _ => ⟨w.made, rfl⟩⟩
      cases hc
      exact ⟨_, if_pos rfl⟩

theorem WorldOk.effect (h : WorldOk w) (he : WorldEffect w w') : WorldOk w' := by
  cases he with
  | client _ he => exact h.client he
  | transfer ctx conn =>
      refine ⟨fun c hc => ?_, h.ctx⟩
      obtain ⟨old, hold⟩ := h.live c hc
      by_cases hcc : c = ctx
      · subst hcc
        exact ⟨conn, by simp [World.setConn, hold]⟩
      · exact ⟨old, by simp [World.setConn, hcc, hold]⟩
  | disconnect => exact ⟨nofun, nofun⟩

theorem WorldOk.connected (h : WorldOk w) (hstate : w.client.state = .connected)
    (halive : ∀ c, w.client.ctx = some c → (w.conn c).alive = true) : Connected w := by
  obtain ⟨c, hc⟩ := h.ctx hstate
  obtain ⟨conn, hconn⟩ := h.live c hc
  exact ⟨c, conn, hc, hconn, by simpa [World.conn, hconn] using halive c hc⟩

end Worlds

structure AliveOk (w : World) (p : AppPhase) : Prop where
  world : WorldOk w
  entered : p = .connect → w.client.state = .connected → Connected w
  made : p = .connected → Connected w

section Steps

variable {w w' : World} {p : AppPhase} {s s' : System 1} {events : List ClientEvent}

theorem AliveOk.elsewhere (h : WorldOk w) (hconnect : p ≠ .connect) (hconnected : p ≠ .connected) : AliveOk w p :=
  ⟨h, fun hp => absurd hp hconnect, fun hp => absurd hp hconnected⟩

theorem AliveOk.loop (h : AliveOk w p) (he : ClientEffect w w') : AliveOk w' p := by
  refine ⟨h.world.client he, fun hp hstate => ?_, fun hp => (h.made hp).client he⟩
  cases he with
  | keep client hctx hkeep =>
      rcases hkeep with hsame | hother
      · exact (h.entered hp (hsame.symm.trans hstate)).client (.keep client hctx (.inl hsame))
      · exact absurd hstate hother
  | connect opened => exact connected_clientDoConnect w opened

theorem AliveOk.step (h : AliveOk s.world (s.apps 0)) (hs : ConnectsUnlost s events s') :
    AliveOk s'.world (s'.apps 0) := by
  obtain ⟨hstep, hunlost⟩ := hs
  have hworld : WorldOk s'.world := h.world.effect (step_ctx hstep).world
  cases hstep with
  | begin i p hidle hp hlive =>
      obtain rfl := Subsingleton.elim i 0
      have happs : (s.app 0 p s.world).apps 0 = p := by simp [System.app]
      rw [happs] at hunlost ⊢
      refine ⟨hworld, fun hconnect hstate => ?_, fun hconnected => ?_⟩
      · exact h.world.connected hstate (hunlost hidle hconnect hstate)
      · subst hconnected
        cases hp
  | beginFree i hidle hlive =>
      obtain rfl := Subsingleton.elim i 0
      apply AliveOk.elsewhere hworld <;> simp [System.app]
  | app i reply p world _ ha =>
      obtain rfl := Subsingleton.elim i 0
      have hctx := appStep_ctx ha
      have happs : (s.app 0 p world).apps 0 = p := by simp [System.app]
      rw [happs]
      refine ⟨hworld, fun hconnect => absurd hconnect hctx.entered, fun hconnected => ?_⟩
      obtain ⟨opened, rfl⟩ := hctx.connected hconnected
      exact connected_clientDoConnect s.world opened
  | spawn i created hi =>
      obtain rfl := Subsingleton.elim i 0
      have happs := (spawn_ctx s 0 created).2.1
      apply AliveOk.elsewhere hworld <;> simp [happs]
  | join i caller hi hjoined =>
      obtain rfl := Subsingleton.elim i 0
      obtain ⟨-, hconnect, hconnected⟩ := afterStop_phase caller
      apply AliveOk.elsewhere hworld <;> simpa [System.app]
  | isConnected i peerClosed hidle hlive =>
      obtain rfl := Subsingleton.elim i 0
      apply AliveOk.elsewhere hworld <;> simp [hidle]
  | loop k reply p p' world _ hk hl => exact h.loop (loopStep_ctx hl).1
  | release i hi =>
      obtain rfl := Subsingleton.elim i 0
      apply AliveOk.elsewhere hworld <;> simp [System.app]

theorem AliveOk.ok (h : AliveOk s.world (s.apps 0)) (hs : Step s events s') (hok : .returnedOk ∈ events) :
    Connected s'.world := by
  cases hs with
  | begin | beginFree | join => cases hok
  | app i reply p world _ ha =>
      obtain rfl := Subsingleton.elim i 0
      obtain ⟨rfl, hp | ⟨hp, hstate⟩⟩ := (appStep_ctx ha).ok hok
      · exact h.made hp
      · exact h.entered hp hstate
  | spawn i created hi => cases created <;> simp [System.spawn] at hok
  | isConnected i peerClosed hidle hlive => exact absurd hok (isConnected_ctx s.world peerClosed).2.1
  | loop k reply p p' world _ hk hl => exact absurd hok (loopStep_ctx hl).2.1
  | release => simp at hok

end Steps

/-- A connect that reports success leaves a client with a live connection, if none is
called on a connection that a call has found lost. -/
theorem connect_ok_means_connected {autoReconnect : Bool} {reconnectMaxAttempts : Nat} {trace events : List ClientEvent}
    {s s' : System 1} (hrun : Run ConnectsUnlost (akTcpClientNew 1 autoReconnect reconnectMaxAttempts) trace s)
    (hs : ConnectsUnlost s events s') (hok : .returnedOk ∈ events) : Connected s'.world := by
  have halive : AliveOk s.world (s.apps 0) := by
    apply hrun.invariant (P := fun _ s => AliveOk s.world (s.apps 0))
    · exact AliveOk.elsewhere ⟨nofun, nofun⟩ nofun nofun
    · exact fun trace s events s' h hs => h.step hs
  exact halive.ok hs.1 hok

section Schedules

/-- A connect, and a second one on the connection it made. -/
theorem connect_twice : ∃ trace s s', Run ConnectsUnlost (akTcpClientNew 1 false 0) trace s ∧
    ConnectsUnlost s [.returnedOk] s' ∧ s'.world.client.ctx = some 0 ∧ Connected s'.world := by
  let reply : ClientReply := ⟨some ⟨5, none⟩, ⟨none, none, "", false, true⟩⟩
  have r₁ : Run ConnectsUnlost (akTcpClientNew 1 false 0) _ _ :=
    .next .start ⟨.begin _ 0 .connect rfl rfl rfl, fun _ _ hstate => nomatch hstate⟩
  have r₂ := r₁.next ⟨.app _ 0 reply _ _ _ rfl, nofun⟩
  have r₃ := r₂.next ⟨.app _ 0 reply _ _ _ rfl, nofun⟩
  have r₄ := r₃.next ⟨.app _ 0 reply _ _ _ rfl, nofun⟩
  have r₅ := r₄.next ⟨.app _ 0 reply _ _ _ rfl, nofun⟩
  have r₆ := r₅.next ⟨.begin _ 0 .connect rfl rfl rfl, fun _ _ _ c hc => by cases hc; rfl⟩
  refine ⟨_, _, _, r₆, ⟨.app _ 0 reply _ _ _ rfl, nofun⟩, rfl, ?_⟩
  exact connect_ok_means_connected r₆ ⟨.app _ 0 reply _ _ _ rfl, nofun⟩ (List.mem_singleton_self _)

/-- Without reconnecting, a receive that sees the peer close leaves the client's
state as it is, and the next connect reports a connection. -/
theorem connect_ok_on_closed : ∃ trace s s', Run Step (akTcpClientNew 1 false 0) trace s ∧
    Step s [.returnedOk] s' ∧ ¬Connected s'.world := by
  let reply : ClientReply := ⟨some ⟨5, none⟩, ⟨none, some [], "", false, true⟩⟩
  have r₁ := Run.next .start (Step.begin (akTcpClientNew 1 false 0) 0 .connect rfl rfl rfl)
  have r₂ := r₁.next (.app _ 0 reply _ _ _ rfl)
  have r₃ := r₂.next (.app _ 0 reply _ _ _ rfl)
  have r₄ := r₃.next (.app _ 0 reply _ _ _ rfl)
  have r₅ := r₄.next (.app _ 0 reply _ _ _ rfl)
  have r₆ := r₅.next (.begin _ 0 (.getCtx true (.recv 16)) rfl rfl rfl)
  have r₇ := r₆.next (.app _ 0 reply _ _ _ rfl)
  have r₈ := r₇.next (.app _ 0 reply _ _ _ rfl)
  have r₉ := r₈.next (.app _ 0 reply _ _ _ rfl)
  have r₁₀ := r₉.next (.app _ 0 reply _ _ _ rfl)
  have r₁₁ := r₁₀.next (.app _ 0 reply _ _ _ rfl)
  have r₁₂ := r₁₁.next (.app _ 0 reply _ _ _ rfl)
  have r₁₃ := r₁₂.next (.app _ 0 reply _ _ _ rfl)
  have r₁₄ := r₁₃.next (.begin _ 0 .connect rfl rfl rfl)
  refine ⟨_, _, _, r₁₄, .app _ 0 reply _ _ _ rfl, ?_⟩
  rintro ⟨c, conn, hc, hconn, halive⟩
  cases hc
  cases hconn
  cases halive

end Schedules

end Ak24.TcpClientAlive
