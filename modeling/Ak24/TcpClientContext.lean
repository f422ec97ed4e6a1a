import Ak24.TcpClientModel

namespace Ak24.TcpClientContext

open TcpCalls TcpClientModel Transition

variable {n : Nat}

/-- A call on a context may still access it; `ak_tcp_client_recv` asks
`ak_tcp_is_alive` after a failed receive. -/
def mayAccess (isRecv : Bool) : CallPhase → Bool
  | .returned (.count n _) => isRecv && n < 0
  | .returned (.buffer _) => false
  | .sending _ _ toSend sent => sent < toSend
  | _ => true

def holdsCtx : AppPhase → Option Nat
  | .call isRecv ctx p => if mayAccess isRecv p then some ctx else none
  | .checkAlive ctx => some ctx
  | _ => none

/-- The reconnect thread replaces a context only when no call may still access
it. -/
def ReplacesUnheld (s : System n) (events : List ClientEvent) : Prop :=
  ∀ c, .replacedCtx c ∈ events → ∀ i, holdsCtx (s.apps i) ≠ some c

inductive ClientEffect (w : World) : World → Prop
  | keep (client : Client) (hctx : client.ctx = w.client.ctx)
    (hstate : client.state = w.client.state ∨ client.state ≠ .connected) : ClientEffect w (w.setClient client)
  | connect (opened : Opened) : ClientEffect w (clientDoConnect w opened)

inductive WorldEffect (w : World) : World → Prop
  | client (w' : World) (h : ClientEffect w w') : WorldEffect w w'
  | transfer (ctx : Nat) (conn : Conn) : WorldEffect w (w.setConn ctx conn)
  | disconnect : WorldEffect w (disconnectSection w)

section Steps

variable {w w' : World} {reply : ClientReply} {events : List ClientEvent}

theorem WorldEffect.same (w : World) : WorldEffect w w := .client _ (.keep w.client rfl (.inl rfl))

theorem WorldEffect.made_le (h : WorldEffect w w') : w.made ≤ w'.made := by
  cases h with
  | client _ h =>
      cases h with
      | keep => exact le_rfl
      | connect => exact Nat.le_succ _
  | transfer | disconnect => exact le_rfl

theorem WorldEffect.ctx {c : Nat} (h : WorldEffect w w') (hc : w'.client.ctx = some c) :
    w.client.ctx = some c ∨ c = w.made ∧ w.made < w'.made := by
  cases h with
  | client _ h =>
      cases h with
      | keep client hctx => exact .inl (hctx.symm.trans hc)
      | connect opened => exact .inr ⟨(Option.some.inj hc).symm, Nat.lt_succ_self _⟩
  | transfer => exact .inl hc
  | disconnect => cases hc

theorem callStep_access {c c' : Conn} {r : Reply} {p p' : CallPhase} {events : List Event} (isRecv : Bool)
    (h : callStep c r p = some (p', c', events)) :
    (.touched ∈ events → mayAccess isRecv p) ∧ (mayAccess isRecv p' → mayAccess isRecv p) := by
  cases p with
  | sending fd ssl toSend sent =>
      simp only [callStep, akTcpSend] at h
      split_ifs at h with hsent
      · simp [mayAccess, hsent]
      · cases h
        simp [mayAccess]
  | returned r => cases h
  | _ => exact ⟨fun _ => rfl, fun _ => rfl⟩

theorem mem_touches {ctx c : Nat} {events : List Event} (h : .touchedCtx c ∈ touches ctx events) :
    c = ctx ∧ .touched ∈ events := by
  simp only [touches, List.mem_map, List.mem_filter, decide_eq_true_eq] at h
  obtain ⟨e, ⟨he, rfl⟩, hc⟩ := h
  exact ⟨(ClientEvent.touchedCtx.inj hc).symm, he⟩

structure AppCtx (w : World) (p p' : AppPhase) (w' : World) (events : List ClientEvent) : Prop where
  world : WorldEffect w w'
  keeps : ∀ c, .replacedCtx c ∉ events
  touches : ∀ c, .touchedCtx c ∈ events → holdsCtx p = some c
  holds : ∀ c, holdsCtx p' = some c → holdsCtx p = some c ∨ w.client.ctx = some c
  entered : p' ≠ .connect
  connected : p' = .connected → ∃ opened, w' = clientDoConnect w opened
  ok : .returnedOk ∈ events → w' = w ∧ (p = .connected ∨ p = .connect ∧ w.client.state = .connected)

theorem afterStop_phase (caller : StopCaller) :
    holdsCtx (afterStop caller) = none ∧ afterStop caller ≠ .connect ∧ afterStop caller ≠ .connected := by
  cases caller <;> exact ⟨rfl, nofun, nofun⟩

theorem appStep_ctx {p p' : AppPhase} (h : appStep w reply p = some (p', w', events)) : AppCtx w p p' w' events := by
  cases appStep_move h with
  | alreadyConnected hstate =>
      exact ⟨.same w, by simp, by simp, nofun, nofun, nofun, fun _ => ⟨rfl, .inr ⟨rfl, hstate⟩⟩⟩
  | connected => exact ⟨.same w, by simp, by simp, nofun, nofun, nofun, fun _ => ⟨rfl, .inl rfl⟩⟩
  | connect | settle | start =>
      exact ⟨.client _ (.keep _ rfl (.inr nofun)), by simp, by simp, nofun, nofun, nofun, by simp⟩
  | enable | disable | stop =>
      exact ⟨.client _ (.keep _ rfl (.inl rfl)), by simp, by simp, nofun, nofun, nofun, by simp⟩
  | publish opened =>
      exact ⟨.client _ (.connect opened), by simp, by simp, nofun, nofun, fun _ => ⟨opened, rfl⟩, by simp⟩
  | reset => exact ⟨.disconnect, by simp, by simp, nofun, nofun, nofun, by simp⟩
  | notRunning caller =>
      obtain ⟨hholds, hconnect, hconnected⟩ := afterStop_phase caller
      exact ⟨.same w, by simp, by simp, by simp [hholds], hconnect, fun hp => absurd hp hconnected, by simp⟩
  | ctx isRecv call ctx hctx =>
      refine ⟨.same w, by simp, by simp, fun c hc => .inr ?_, nofun, nofun, by simp⟩
      simp only [holdsCtx] at hc
      split_ifs at hc
      exact hctx.trans hc
  | transfer isRecv ctx q q' conn reply _ hcall =>
      obtain ⟨htouch, haccess⟩ := callStep_access isRecv hcall
      refine ⟨.transfer ctx conn, by simp [touches], fun c hc => ?_, fun c hc => .inl ?_, nofun, nofun,
        by simp [touches]⟩
      · obtain ⟨rfl, htouched⟩ := mem_touches hc
        simp [holdsCtx, htouch htouched]
      · simp only [holdsCtx] at hc ⊢
        split_ifs at hc with hq
        rw [if_pos (haccess hq)]
        exact hc
  | failed ctx m error hneg =>
      refine ⟨.same w, by simp, by simp, fun c hc => .inl ?_, nofun, nofun, by simp⟩
      simpa [holdsCtx, mayAccess, hneg] using hc
  | alive ctx conn | dead ctx conn =>
      refine ⟨.transfer ctx conn, by simp [touches], fun c hc => ?_, nofun, nofun, nofun, by simp [touches]⟩
      rw [(mem_touches hc).1]
      rfl
  | _ => exact ⟨.same w, by simp, by simp, nofun, nofun, nofun, by simp⟩

theorem loopStep_ctx {p p' : LoopPhase} (h : loopStep w reply p = some (p', w', events)) :
    ClientEffect w w' ∧ .returnedOk ∉ events ∧ (∀ c, .touchedCtx c ∉ events) ∧
      ∀ c, .replacedCtx c ∈ events → w.client.ctx = some c ∧ w'.client.ctx = some w.made := by
  cases loopStep_move h with
  | needless | stopped | clear => exact ⟨.keep _ rfl (.inl rfl), by simp, by simp, by simp⟩
  | giveUp | retry => exact ⟨.keep _ rfl (.inr nofun), by simp, by simp, by simp⟩
  | publish opened =>
      refine ⟨.connect opened, by simp, by simp, fun c hc => ⟨?_, rfl⟩⟩
      simpa using hc
  | _ => exact ⟨.keep w.client rfl (.inl rfl), by simp, by simp, by simp⟩

end Steps

structure Gone (c : Nat) (s : System n) : Prop where
  made : c < s.world.made
  ctx : s.world.client.ctx ≠ some c
  held : ∀ i, holdsCtx (s.apps i) ≠ some c

def CtxOk (s : System n) : Prop := ∀ c, s.world.client.ctx = some c → c < s.world.made

section Systems

variable {s s' : System n} {events : List ClientEvent} {w : World} {c : Nat} {i : Fin n} {p : AppPhase}

theorem beginsCall_holds (h : beginsCall p) : holdsCtx p = none := by
  cases p with
  | call | checkAlive => cases h
  | _ => rfl

theorem isConnected_ctx (w : World) (peerClosed : Bool) :
    WorldEffect w (akTcpClientIsConnected w peerClosed).1 ∧ .returnedOk ∉ (akTcpClientIsConnected w peerClosed).2 ∧
      (∀ c, .replacedCtx c ∉ (akTcpClientIsConnected w peerClosed).2) ∧
      ∀ c, .touchedCtx c ∈ (akTcpClientIsConnected w peerClosed).2 → w.client.ctx = some c := by
  rw [akTcpClientIsConnected]
  split
  · rename_i ctx _ hctx
    refine ⟨.transfer ctx _, by simp [touches], by simp [touches], fun c hc => ?_⟩
    rw [(mem_touches hc).1]
    exact hctx
  · exact ⟨.same w, by simp, by simp, by simp⟩

theorem spawn_ctx (s : System n) (i : Fin n) (created : Bool) :
    WorldEffect s.world (s.spawn i created).1.world ∧ (s.spawn i created).1.apps = Function.update s.apps i .idle ∧
      ∀ c, .replacedCtx c ∉ (s.spawn i created).2 ∧ .touchedCtx c ∉ (s.spawn i created).2 := by
  cases created with
  | false => exact ⟨.same s.world, rfl, by simp [System.spawn]⟩
  | true => exact ⟨.client _ (.keep _ rfl (.inl rfl)), rfl, by simp [System.spawn]⟩

structure StepCtx (s : System n) (events : List ClientEvent) (s' : System n) : Prop where
  world : WorldEffect s.world s'.world
  replaces : ∀ c, .replacedCtx c ∈ events →
    s.world.client.ctx = some c ∧ s'.world.client.ctx = some s.world.made ∧ s'.apps = s.apps
  apart : (∀ c, .replacedCtx c ∉ events) ∨ ∀ c, .touchedCtx c ∉ events
  touches : ∀ c, .touchedCtx c ∈ events → s.world.client.ctx = some c ∨ ∃ i, holdsCtx (s.apps i) = some c
  holds : ∀ c i, holdsCtx (s'.apps i) = some c → holdsCtx (s.apps i) = some c ∨ s.world.client.ctx = some c

theorem update_holds (h : ∀ c, holdsCtx p = some c → holdsCtx (s.apps i) = some c ∨ s.world.client.ctx = some c)
    (c : Nat) : ∀ j, holdsCtx (Function.update s.apps i p j) = some c →
      holdsCtx (s.apps j) = some c ∨ s.world.client.ctx = some c := by
  apply (Function.forall_update_iff s.apps fun j q => holdsCtx q = some c →
    holdsCtx (s.apps j) = some c ∨ s.world.client.ctx = some c).mpr
  exact ⟨h c, fun _ _ => .inl⟩

theorem StepCtx.silent (hworld : WorldEffect s.world s'.world) (happs : s'.apps = Function.update s.apps i p)
    (hp : holdsCtx p = none) (hevents : ∀ c, .replacedCtx c ∉ events ∧ .touchedCtx c ∉ events) :
    StepCtx s events s' := by
  refine ⟨hworld, fun c hc => absurd hc (hevents c).1, .inl fun c => (hevents c).1,
    fun c hc => absurd hc (hevents c).2, ?_⟩
  rw [happs]
  exact update_holds fun c hc => by simp [hp] at hc

theorem step_ctx (hs : Step s events s') : StepCtx s events s' := by
  cases hs with
  | begin i p hidle hp hlive => exact .silent (.same s.world) rfl (beginsCall_holds hp) (by simp)
  | beginFree i hidle hlive => exact .silent (p := .stop .free) (.same s.world) rfl rfl (by simp)
  | app i reply p world _ ha =>
      have hctx := appStep_ctx ha
      exact ⟨hctx.world, fun c hc => absurd hc (hctx.keeps c), .inl hctx.keeps,
        fun c hc => .inr ⟨i, hctx.touches c hc⟩, update_holds hctx.holds⟩
  | spawn i created hi =>
      obtain ⟨hworld, happs, hevents⟩ := spawn_ctx s i created
      exact .silent hworld happs rfl hevents
  | join i caller hi hjoined => exact .silent (.same s.world) rfl (afterStop_phase caller).1 (by simp)
  | isConnected i peerClosed hidle hlive =>
      obtain ⟨hworld, -, hkeeps, htouches⟩ := isConnected_ctx s.world peerClosed
      exact ⟨hworld, fun c hc => absurd hc (hkeeps c), .inl hkeeps, fun c hc => .inl (htouches c hc),
        fun c i hi => .inl hi⟩
  | loop k reply p p' world _ hk hl =>
      obtain ⟨hclient, -, htouches, hreplaces⟩ := loopStep_ctx hl
      exact ⟨.client _ hclient, fun c hc => ⟨(hreplaces c hc).1, (hreplaces c hc).2, rfl⟩, .inr htouches,
        fun c hc => absurd hc (htouches c), fun c i hi => .inl hi⟩
  | release i hi => exact .silent (p := .released) (.same s.world) rfl rfl (by simp)

theorem CtxOk.step (h : CtxOk s) (hs : StepCtx s events s') : CtxOk s' := by
  intro c hc
  rcases hs.world.ctx hc with hold | ⟨rfl, hlt⟩
  · exact (h c hold).trans_le hs.world.made_le
  · exact hlt

theorem Gone.step (h : Gone c s) (hs : StepCtx s events s') : Gone c s' := by
  refine ⟨h.made.trans_le hs.world.made_le, fun hc => ?_, fun i hi => ?_⟩
  · rcases hs.world.ctx hc with hold | ⟨rfl, -⟩
    · exact h.ctx hold
    · exact absurd h.made (lt_irrefl _)
  · rcases hs.holds c i hi with hold | hclient
    · exact h.held i hold
    · exact h.ctx hclient

end Systems

/-- No call touches a context that the reconnect thread has replaced, if it replaces
none that a call may still access. -/
theorem no_ctx_access_after_replacement {autoReconnect : Bool} {reconnectMaxAttempts : Nat} {trace : List ClientEvent}
    {s : System n}
    (hrun : Run (guarded ReplacesUnheld Step) (akTcpClientNew n autoReconnect reconnectMaxAttempts) trace s) (c : Nat) :
    NoUseAfter (· = .replacedCtx c) (· = .touchedCtx c) trace := by
  apply hrun.no_use_after CtxOk (Gone c)
  · exact nofun
  · exact fun s events s' h hs => h.step (step_ctx hs.1)
  · intro s events s' h hs
    rcases (step_ctx hs.1).apart with hkept | hquiet
    · exact .of_no_end fun e he hend => hkept c (hend ▸ he)
    · exact .of_no_use fun e he huse => hquiet c (huse ▸ he)
  · rintro s events s' h ⟨hs, hunheld⟩ _ he rfl
    obtain ⟨hold, hnew, happs⟩ := (step_ctx hs).replaces c he
    have hlt := h c hold
    refine ⟨hlt.trans_le (step_ctx hs).world.made_le, fun hc => ?_, ?_⟩
    · rw [hnew] at hc
      exact absurd (Option.some.inj hc) hlt.ne'
    · rw [happs]
      exact hunheld c he
  · rintro s events s' h hs hgone
    refine ⟨hgone.step (step_ctx hs.1), ?_⟩
    rintro _ hu rfl
    rcases (step_ctx hs.1).touches c hu with hclient | ⟨i, hi⟩
    · exact hgone.ctx hclient
    · exact hgone.held i hi

section Schedules

theorem send_run {s₀ s : System n} {trace : List ClientEvent} {i : Fin n} {c k : Nat} (hrun : Run Step s₀ trace s)
    (hi : s.apps i = .call false c (.send k)) : ∃ s', Run Step s₀ (trace ++ [.touchedCtx c]) s' := by
  let reply : ClientReply := ⟨none, ⟨none, none, "", false, true⟩⟩
  obtain ⟨p, conn, hcall⟩ : ∃ p conn, callStep (s.world.conn c) reply.call (.send k) = some (p, conn, [.touched]) := by
    simp only [callStep, akTcpSend]
    split_ifs
    all_goals exact ⟨_, _, rfl⟩
  exact ⟨_, hrun.next (.app s i reply (.call false c p) (s.world.setConn c conn) _
    (by simp [hi, appStep, hcall, touches]))⟩

theorem reconnect_run : ∃ trace s, Run (guarded ReplacesUnheld Step) (akTcpClientNew 1 true 0) trace s ∧
    s.apps 0 = .idle ∧ s.loops = [.publish ⟨6, none⟩] ∧ s.freeing = false ∧ s.world.client.ctx = some 0 := by
  let opened : ClientReply := ⟨some ⟨5, none⟩, ⟨none, some [], "", false, true⟩⟩
  let reopened : ClientReply := ⟨some ⟨6, none⟩, ⟨none, some [], "", false, true⟩⟩
  have r₁ : Run (guarded ReplacesUnheld Step) (akTcpClientNew 1 true 0) _ _ :=
    .next .start ⟨.begin _ 0 .connect rfl rfl rfl, nofun⟩
  have r₂ := r₁.next ⟨.app _ 0 opened _ _ _ rfl, nofun⟩
  have r₃ := r₂.next ⟨.app _ 0 opened _ _ _ rfl, nofun⟩
  have r₄ := r₃.next ⟨.app _ 0 opened _ _ _ rfl, nofun⟩
  have r₅ := r₄.next ⟨.app _ 0 opened _ _ _ rfl, by simp [ReplacesUnheld]⟩
  have r₆ := r₅.next ⟨.begin _ 0 (.getCtx true (.recv 16)) rfl rfl rfl, nofun⟩
  have r₇ := r₆.next ⟨.app _ 0 opened _ _ _ rfl, nofun⟩
  have r₈ := r₇.next ⟨.app _ 0 opened _ _ _ rfl, by simp [ReplacesUnheld, touches]⟩
  have r₉ := r₈.next ⟨.app _ 0 opened _ _ _ rfl, by simp [ReplacesUnheld, touches]⟩
  have r₁₀ := r₉.next ⟨.app _ 0 opened _ _ _ rfl, by simp [ReplacesUnheld, touches]⟩
  have r₁₁ := r₁₀.next ⟨.app _ 0 opened _ _ _ rfl, by simp [ReplacesUnheld, touches]⟩
  have r₁₂ := r₁₁.next ⟨.app _ 0 opened _ _ _ rfl, nofun⟩
  have r₁₃ := r₁₂.next ⟨.app _ 0 opened _ _ _ rfl, nofun⟩
  have r₁₄ := r₁₃.next ⟨.app _ 0 opened _ _ _ rfl, nofun⟩
  have r₁₅ := r₁₄.next ⟨.spawn _ 0 true rfl, nofun⟩
  have r₁₆ := r₁₅.next ⟨.loop _ 0 reopened .top .delay _ _ rfl rfl, by simp [ReplacesUnheld]⟩
  have r₁₇ := r₁₆.next ⟨.loop _ 0 reopened .delay .waiting _ _ rfl rfl, by simp [ReplacesUnheld]⟩
  have r₁₈ := r₁₇.next ⟨.loop _ 0 reopened .waiting .retry _ _ rfl rfl, by simp [ReplacesUnheld]⟩
  have r₁₉ := r₁₈.next ⟨.loop _ 0 reopened .retry .attempt _ _ rfl rfl, by simp [ReplacesUnheld]⟩
  have r₂₀ := r₁₉.next ⟨.loop _ 0 reopened .attempt (.publish ⟨6, none⟩) _ _ rfl rfl, by simp [ReplacesUnheld]⟩
  exact ⟨_, _, r₂₀, rfl, rfl, rfl, rfl⟩

/-- The thread stores its connection between two calls. -/
theorem replaced_between_calls : ∃ trace s, Run (guarded ReplacesUnheld Step) (akTcpClientNew 1 true 0) trace s ∧
    .replacedCtx 0 ∈ trace ∧ NoUseAfter (· = .replacedCtx 0) (· = .touchedCtx 0) trace := by
  let reply : ClientReply := ⟨none, ⟨none, none, "", false, true⟩⟩
  obtain ⟨trace, s, r₁, hidle, hloops, hlive, hctx⟩ := reconnect_run
  have r₂ := r₁.next ⟨.loop s 0 reply (.publish ⟨6, none⟩) .connected _ _ (by rw [hloops]; rfl) rfl, by
    intro c _ i
    rw [Subsingleton.elim i 0, hidle]
    exact nofun⟩
  exact ⟨_, _, r₂, by simp [hctx], no_ctx_access_after_replacement r₂ 0⟩

/-- The thread stores its connection after a send was handed the old context
and before it looks at it. -/
theorem send_on_replaced_ctx : ∃ trace s, Run Step (akTcpClientNew 1 true 0) trace s ∧
    ¬NoUseAfter (· = .replacedCtx 0) (· = .touchedCtx 0) trace := by
  let reply : ClientReply := ⟨none, ⟨none, none, "", false, true⟩⟩
  obtain ⟨trace, s, r₁, hidle, hloops, hlive, hctx⟩ := reconnect_run
  have r₂ := r₁.of_guarded.next (.begin s 0 (.getCtx false (.send 1)) hidle rfl hlive)
  have r₃ := r₂.next (.app _ 0 reply (.call false 0 (.send 1)) s.world [] (by simp [System.app, appStep, hctx]))
  have r₄ := r₃.next (.loop _ 0 reply (.publish ⟨6, none⟩) .connected _ _ (by simp [System.app, hloops]) rfl)
  obtain ⟨s', r₅⟩ := send_run r₄ (i := 0) (c := 0) (k := 1) (by simp [System.app])
  refine ⟨_, _, r₅, fun hno => ?_⟩
  have hused := (List.pairwise_append.mp hno).2.2 (.replacedCtx 0) (by simp [System.app, hctx])
  exact hused (.touchedCtx 0) (List.mem_singleton_self _) rfl rfl

end Schedules

end Ak24.TcpClientContext
