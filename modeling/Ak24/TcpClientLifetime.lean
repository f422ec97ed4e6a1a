import Ak24.TcpClientProgress

namespace Ak24.TcpClientLifetime

open TcpCalls TcpClientModel TcpClientProgress Transition

variable {n : Nat}

def inFree : AppPhase → Bool
  | .stop caller | .join caller | .reset caller | .farewell caller => caller = .free
  | .release | .released => true
  | _ => false

def pastStop : AppPhase → Bool
  | .reset caller | .farewell caller => caller = .free
  | .release | .released => true
  | _ => false

/-- `client_internal_free` runs only when no reconnect thread that has given up
has `on_disconnect` still to look at. -/
def FreesAfterNotice (s : System n) (events : List ClientEvent) : Prop :=
  .freedInternal ∈ events → .giveUp ∉ s.loops

structure FreeOk (s : System n) : Prop where
  flag : FlagOk s.world s.apps s.loops
  alone : ∀ i, inFree (s.apps i) → s.freeing = true ∧ ∀ j ≠ i, s.apps j = .idle
  quiet : ∀ i, pastStop (s.apps i) → ∀ p ∈ s.loops, flagged p = false
  gone : ∀ i, s.apps i = .released → ∀ p ∈ s.loops, p = .exited

theorem inFree_of_pastStop {p : AppPhase} (h : pastStop p) : inFree p := by
  cases p with
  | reset | farewell => exact h
  | release | released => rfl
  | _ => cases h

theorem touches_quiet (ctx : Nat) (events : List Event) :
    .touchedInternal ∉ touches ctx events ∧ .freedInternal ∉ touches ctx events := by
  simp [touches]

/-- A call stays in `ak_tcp_client_free` or out of it, and gets past stopping the
reconnect thread in one step only when none counts as running. -/
theorem appStep_free {w w' : World} {reply : ClientReply} {p p' : AppPhase} {events : List ClientEvent}
    (h : appStep w reply p = some (p', w', events)) :
    inFree p' = inFree p ∧ (pastStop p' → pastStop p ∨ w.client.reconnectThreadRunning = false) ∧
      p' ≠ .released ∧ .touchedInternal ∉ events ∧ .freedInternal ∉ events := by
  cases appStep_move h with
  | notRunning caller hidle => cases caller <;> simp [inFree, pastStop, afterStop, hidle]
  | reset caller => exact ⟨rfl, .inl, by simp, by simp, by simp⟩
  | disconnected caller hcaller => simp [inFree, pastStop, hcaller]
  | transfer | alive | dead => simp [inFree, pastStop, touches_quiet]
  | _ => simp [inFree, pastStop]

section Steps

variable {s s' : System n} {events : List ClientEvent} {i : Fin n} {p : AppPhase} {w w' : World}

theorem FreeOk.move (h : FreeOk s) (hflag : FlagOk w (Function.update s.apps i p) s.loops)
    (hin : inFree p → inFree (s.apps i)) (hidle : s.apps i ≠ .idle)
    (hquiet : pastStop p → ∀ q ∈ s.loops, flagged q = false) (hgone : p = .released → ∀ q ∈ s.loops, q = .exited) :
    FreeOk (s.app i p w) := by
  constructor
  · exact hflag
  · apply (Function.forall_update_iff s.apps fun j q => inFree q →
      s.freeing = true ∧ ∀ k ≠ j, Function.update s.apps i p k = .idle).mpr
    constructor
    · intro hp
      obtain ⟨hfree, hothers⟩ := h.alone i (hin hp)
      refine ⟨hfree, fun k hk => ?_⟩
      rw [Function.update_of_ne hk]
      exact hothers k hk
    · exact fun j hji hj => absurd ((h.alone j hj).2 i (Ne.symm hji)) hidle
  · apply (Function.forall_update_iff s.apps fun _ q => pastStop q → ∀ r ∈ s.loops, flagged r = false).mpr
    exact ⟨hquiet, fun j _ => h.quiet j⟩
  · apply (Function.forall_update_iff s.apps fun _ q => q = .released → ∀ r ∈ s.loops, r = .exited).mpr
    exact ⟨hgone, fun j _ => h.gone j⟩

theorem unflagged_of_effect {q q' : LoopPhase} (he : LoopEffect w q q' w') (hq : flagged q = false) :
    flagged q' = false := by
  cases he with
  | advance hw hflagged => exact hflagged.trans hq
  | leave hp => rw [hp]; rfl
  | giveUp hp => rw [hp]; rfl
  | retry hp =>
      subst hp
      cases hq
  | publish hp hstate hrunning hstop hthread hflagged =>
      rw [hq] at hflagged
      cases hflagged

theorem FreeOk.loop {k : Nat} {q q' : LoopPhase} (h : FreeOk s) (hk : s.loops[k]? = some q)
    (he : LoopEffect s.world q q' w) (hq : q ≠ .exited) :
    FreeOk { s with world := w, loops := s.loops.set k q' } := by
  have hmem : q ∈ s.loops := List.mem_of_getElem? hk
  refine ⟨h.flag.loop hk he, h.alone, fun j hj r hr => ?_, fun j hj => ?_⟩
  · rcases List.mem_or_eq_of_mem_set hr with hold | rfl
    · exact h.quiet j hj r hold
    · exact unflagged_of_effect he (h.quiet j hj q hmem)
  · exact absurd (h.gone j hj q hmem) hq

theorem FreeOk.outside (hflag : FlagOk s.world s.apps s.loops) (hnone : ∀ j, inFree (s.apps j) = false) : FreeOk s := by
  refine ⟨hflag, fun j hj => ?_, fun j hj => ?_, fun j hj => ?_⟩
  · rw [hnone j] at hj
    cases hj
  · have hin := inFree_of_pastStop hj
    rw [hnone j] at hin
    cases hin
  · have hin := hnone j
    rw [hj] at hin
    cases hin

theorem inFree_update (hnone : ∀ j ≠ i, inFree (s.apps j) = false) (hp : inFree p = false) :
    ∀ j, inFree (Function.update s.apps i p j) = false :=
  (Function.forall_update_iff s.apps fun _ q => inFree q = false).mpr ⟨hp, hnone⟩

theorem FreeOk.spawn (h : FreeOk s) (hi : s.apps i = .spawn) (created : Bool) : FreeOk (s.spawn i created).1 := by
  apply FreeOk.outside (h.flag.spawn hi created)
  have hnone : ∀ j ≠ i, inFree (s.apps j) = false := by
    intro j hji
    by_contra hj
    rw [Bool.not_eq_false] at hj
    have hidle := (h.alone j hj).2 i (Ne.symm hji)
    rw [hi] at hidle
    cases hidle
  cases created <;> exact inFree_update hnone rfl

theorem FreeOk.step (h : FreeOk s) (hs : guarded FreesAfterNotice Step s events s') : FreeOk s' := by
  obtain ⟨hstep, hnotice⟩ := hs
  have hflag := h.flag.step hstep
  cases hstep with
  | begin i p hidle hp hlive =>
      apply FreeOk.outside hflag
      have hnone : ∀ j, inFree (s.apps j) = false := by
        intro j
        by_contra hj
        rw [(h.alone j (by simpa using hj)).1] at hlive
        cases hlive
      apply inFree_update fun j _ => hnone j
      cases p with
      | stop caller => cases caller <;> first | rfl | cases hp
      | _ => first | rfl | cases hp
  | beginFree i hidle hlive =>
      constructor
      · exact hflag
      · apply (Function.forall_update_iff s.apps fun j q => inFree q →
          true = true ∧ ∀ k ≠ j, Function.update s.apps i (.stop .free) k = .idle).mpr
        constructor
        · intro _
          refine ⟨rfl, fun k hk => ?_⟩
          rw [Function.update_of_ne hk]
          exact hidle k
        · intro j _ hj
          rw [hidle j] at hj
          cases hj
      · apply (Function.forall_update_iff s.apps fun _ q => pastStop q → ∀ r ∈ s.loops, flagged r = false).mpr
        exact ⟨by simp [pastStop], fun j _ => by simp [hidle j, pastStop]⟩
      · apply (Function.forall_update_iff s.apps fun _ q => q = .released → ∀ r ∈ s.loops, r = .exited).mpr
        exact ⟨by simp, fun j _ => by simp [hidle j]⟩
  | app i reply p world _ ha =>
      obtain ⟨hin, hpast, hreleased, -⟩ := appStep_free ha
      refine h.move hflag (fun hp => hin ▸ hp) ?_ (fun hp => ?_) (fun hp => absurd hp hreleased)
      · intro hidle
        rw [hidle] at ha
        cases ha
      · rcases hpast hp with hold | hstopped
        · exact h.quiet i hold
        · exact (h.flag.none_flagged hstopped).2
  | spawn i created hi => exact h.spawn hi created
  | join i caller hi hjoined =>
      refine h.move hflag ?_ (by simp [hi]) (fun _ => h.flag.of_joined hjoined) ?_
      · rw [hi]
        cases caller <;> simp [inFree, afterStop]
      · cases caller <;> simp [afterStop]
  | isConnected i peerClosed hidle hlive => exact ⟨hflag, h.alone, h.quiet, h.gone⟩
  | loop k reply p p' world _ hk hl =>
      refine h.loop hk (loopStep_effect hl) ?_
      rintro rfl
      cases hl
  | release i hi =>
      have hquiet := h.quiet i (by rw [hi]; rfl)
      have hgaveUp := hnotice (List.mem_singleton_self _)
      refine h.move hflag (by simp [hi, inFree]) (by simp [hi]) (fun _ => hquiet) fun _ q hq => ?_
      have hunflagged := hquiet q hq
      cases q with
      | exited => rfl
      | giveUp => exact absurd hq hgaveUp
      | _ => cases hunflagged

theorem loopStep_keeps {reply : ClientReply} {q q' : LoopPhase} (h : loopStep w reply q = some (q', w', events)) :
    .freedInternal ∉ events := by
  cases loopStep_move h with
  | _ => simp

theorem isConnected_quiet (w : World) (peerClosed : Bool) :
    .touchedInternal ∉ (akTcpClientIsConnected w peerClosed).2 ∧
      .freedInternal ∉ (akTcpClientIsConnected w peerClosed).2 := by
  rw [akTcpClientIsConnected]
  split
  · exact touches_quiet _ _
  · simp

theorem step_frees (hs : Step s events s') :
    .freedInternal ∉ events ∨ events = [.freedInternal] ∧ ∃ i, s'.apps i = .released := by
  cases hs with
  | begin | beginFree | join => exact .inl List.not_mem_nil
  | app i reply p world _ ha => exact .inl (appStep_free ha).2.2.2.2
  | spawn i created => cases created <;> simp [System.spawn]
  | isConnected i peerClosed => exact .inl (isConnected_quiet _ _).2
  | loop k reply p p' world _ hk hl => exact .inl (loopStep_keeps hl)
  | release i hi => exact .inr ⟨rfl, i, Function.update_self ..⟩

theorem FreeOk.stuck (h : FreeOk s) (hi : s.apps i = .released) : ¬Step s events s' := by
  obtain ⟨hfree, hothers⟩ := h.alone i (by rw [hi]; rfl)
  have hpast : ∀ j, s.apps j = .idle ∨ s.apps j = .released := by
    intro j
    by_cases hji : j = i
    · exact .inr (hji ▸ hi)
    · exact .inl (hothers j hji)
  intro hs
  cases hs with
  | begin j p hidle hp hlive => simp [hfree] at hlive
  | beginFree j hidle hlive => simp [hfree] at hlive
  | app j reply p world _ ha => rcases hpast j with hj | hj <;> simp [hj, appStep] at ha
  | spawn j created hj | join j caller hj | release j hj => simpa [hj] using hpast j
  | isConnected j peerClosed hidle hlive => simp [hfree] at hlive
  | loop k reply p p' world _ hk hl =>
      rw [h.gone i hi p (List.mem_of_getElem? hk)] at hl
      cases hl

end Steps

/-- Nothing touches a freed client, if it is freed with no `on_disconnect` still to come. -/
theorem no_reconnect_step_after_free {autoReconnect : Bool} {reconnectMaxAttempts : Nat} {trace : List ClientEvent}
    {s : System n}
    (hrun : Run (guarded FreesAfterNotice Step) (akTcpClientNew n autoReconnect reconnectMaxAttempts) trace s) :
    NoUseAfter (· = .freedInternal) (· = .touchedInternal) trace := by
  apply hrun.no_use_after FreeOk fun s => ∃ i, s.apps i = .released
  · exact FreeOk.outside FlagOk.start fun _ => rfl
  · exact fun s events s' h hs => h.step hs
  · intro s events s' h hs
    rcases step_frees hs.1 with hkept | ⟨rfl, -⟩
    · exact .of_no_end fun e he hend => hkept (hend ▸ he)
    · exact List.pairwise_singleton _ _
  · intro s events s' h hs e he hend
    rcases step_frees hs.1 with hkept | ⟨-, hreleased⟩
    · exact absurd (hend ▸ he) hkept
    · exact hreleased
  · rintro s events s' h hs ⟨i, hi⟩
    exact absurd hs.1 (h.stuck hi)

section Schedules

variable {s₀ s : System 1} {trace : List ClientEvent}

theorem gives_up_run : ∃ s, Run (guarded FreesAfterNotice Step) (akTcpClientNew 1 true 1) [.touchedInternal] s ∧
    s.apps 0 = .idle ∧ s.loops = [.giveUp] ∧ s.freeing = false ∧ s.world.client.reconnectThreadRunning = false ∧
    s.world.client.ctx = none := by
  let reply : ClientReply := ⟨none, ⟨none, none, "", false, true⟩⟩
  have r₁ : Run (guarded FreesAfterNotice Step) (akTcpClientNew 1 true 1) _ _ :=
    .next .start ⟨.begin _ 0 .connect rfl rfl rfl, nofun⟩
  have r₂ := r₁.next ⟨.app _ 0 reply _ _ _ rfl, nofun⟩
  have r₃ := r₂.next ⟨.app _ 0 reply _ _ _ rfl, nofun⟩
  have r₄ := r₃.next ⟨.app _ 0 reply _ _ _ rfl, nofun⟩
  have r₅ := r₄.next ⟨.app _ 0 reply _ _ _ rfl, nofun⟩
  have r₆ := r₅.next ⟨.spawn _ 0 true rfl, nofun⟩
  have r₇ := r₆.next ⟨.loop _ 0 reply .top .giveUp _ _ rfl rfl, by simp [FreesAfterNotice]⟩
  exact ⟨_, r₇, rfl, rfl, rfl, rfl, rfl⟩

theorem free_run (hrun : Run (guarded FreesAfterNotice Step) s₀ trace s) (hidle : s.apps 0 = .idle)
    (hlive : s.freeing = false) (hstopped : s.world.client.reconnectThreadRunning = false)
    (hctx : s.world.client.ctx = none) :
    ∃ s', Run (guarded FreesAfterNotice Step) s₀ trace s' ∧ s'.apps 0 = .release ∧ s'.loops = s.loops := by
  let reply : ClientReply := ⟨none, ⟨none, none, "", false, true⟩⟩
  have hall : ∀ j, s.apps j = .idle := fun j => Subsingleton.elim 0 j ▸ hidle
  have r₁ := hrun.next ⟨.beginFree s 0 hall hlive, by simp [FreesAfterNotice]⟩
  have r₂ := r₁.next ⟨.app _ 0 reply (.reset .free) s.world []
    (by simp [System.app, appStep, hstopped, afterStop]), by simp [FreesAfterNotice]⟩
  have r₃ := r₂.next ⟨.app _ 0 reply (.farewell .free) (disconnectSection s.world) []
    (by simp [System.app, appStep, hctx]), by simp [FreesAfterNotice]⟩
  have r₄ := r₃.next ⟨.app _ 0 reply .release (disconnectSection s.world) [] (by simp [System.app, appStep]), by simp [FreesAfterNotice]⟩
  simp only [List.append_nil] at r₄
  exact ⟨_, r₄, by simp [System.app], rfl⟩

/-- The thread looks at `on_disconnect` before the application frees the
client. -/
theorem notice_before_free : ∃ trace s, Run (guarded FreesAfterNotice Step) (akTcpClientNew 1 true 1) trace s ∧
    trace = [.touchedInternal, .touchedInternal, .freedInternal] ∧
    NoUseAfter (· = .freedInternal) (· = .touchedInternal) trace := by
  let reply : ClientReply := ⟨none, ⟨none, none, "", false, true⟩⟩
  obtain ⟨s, r₁, hidle, hloops, hlive, hstopped, hctx⟩ := gives_up_run
  have r₂ := r₁.next ⟨.loop s 0 reply .giveUp .exited _ _ (by rw [hloops]; rfl) rfl, by simp [FreesAfterNotice]⟩
  obtain ⟨s', r₃, hrelease, hloops'⟩ := free_run r₂ hidle hlive hstopped hctx
  have r₄ := r₃.next ⟨.release s' 0 hrelease, fun _ => by simp [hloops', hloops]⟩
  exact ⟨_, _, r₄, rfl, no_reconnect_step_after_free r₄⟩

/-- The application frees the client before the thread that has given up looks
at `on_disconnect`. -/
theorem notice_after_free : ∃ trace s, Run Step (akTcpClientNew 1 true 1) trace s ∧
    ¬NoUseAfter (· = .freedInternal) (· = .touchedInternal) trace := by
  let reply : ClientReply := ⟨none, ⟨none, none, "", false, true⟩⟩
  obtain ⟨s, r₁, hidle, hloops, hlive, hstopped, hctx⟩ := gives_up_run
  obtain ⟨s', r₂, hrelease, hloops'⟩ := free_run r₁ hidle hlive hstopped hctx
  have r₃ := r₂.of_guarded.next (.release s' 0 hrelease)
  have r₄ := r₃.next (.loop _ 0 reply .giveUp .exited _ _ (by simp [System.app, hloops', hloops]) rfl)
  refine ⟨_, _, r₄, ?_⟩
  simp [NoUseAfter]

end Schedules

end Ak24.TcpClientLifetime
