import Ak24.TcpClientModel

namespace Ak24.TcpClientProgress

open TcpCalls TcpClientModel Transition

variable {n : Nat}

def flagged : LoopPhase → Bool
  | .giveUp | .exited => false
  | _ => true

def pending : LoopPhase → Bool
  | .connected | .clear | .giveUp | .exited => false
  | _ => true

/-- A connect that has still to store the state it leaves the client in. -/
def connects : AppPhase → Bool
  | .attempt | .publish _ | .failed | .settle => true
  | .start connecting => connecting
  | _ => false

/-- A disconnect that has still to store `AK_TCP_CLIENT_DISCONNECTED`. -/
def disconnects : AppPhase → Bool
  | .stop caller | .join caller | .reset caller => caller ≠ .setAutoReconnect
  | _ => false

def settles (p : AppPhase) : Bool := connects p || disconnects p

def atRest (state : ClientState) : Prop := state = .disconnected ∨ state = .connected

inductive AppEffect (w : World) (p p' : AppPhase) (w' : World) (events : List ClientEvent) : Prop
  | keep (hstate : w'.client.state = w.client.state)
    (hrunning : w'.client.reconnectThreadRunning = w.client.reconnectThreadRunning)
    (hstop : w'.client.stopReconnect = w.client.stopReconnect)
    (hthread : w'.client.reconnectThread = w.client.reconnectThread) (hsettles : settles p → settles p')
    (hspawn : p' ≠ .spawn)
  | rest (hstate : atRest w'.client.state)
    (hrunning : w'.client.reconnectThreadRunning = w.client.reconnectThreadRunning)
    (hstop : w'.client.stopReconnect = w.client.stopReconnect)
    (hthread : w'.client.reconnectThread = w.client.reconnectThread) (hspawn : p' ≠ .spawn)
  | connect (hp : p' = .attempt)
    (hrunning : w'.client.reconnectThreadRunning = w.client.reconnectThreadRunning)
    (hstop : w'.client.stopReconnect = w.client.stopReconnect)
    (hthread : w'.client.reconnectThread = w.client.reconnectThread)
  | start (hp : p' = .spawn) (hidle : w.client.reconnectThreadRunning = false)
    (hrunning : w'.client.reconnectThreadRunning = true) (hstop : w'.client.stopReconnect = false)
    (hthread : w'.client.reconnectThread = w.client.reconnectThread)
  | defer (hp : p' = .idle) (hw : w' = w) (hevents : events = [.deferred])
  | stop (caller : StopCaller) (hp : p' = .join caller) (hrunning : w.client.reconnectThreadRunning = true)
    (hw : w' = w.setClient { w.client with stopReconnect := true }) (hevents : events = [.stopped caller])
    (hsettles : settles p → settles p')

theorem appStep_effect {w w' : World} {reply : ClientReply} {p p' : AppPhase} {events : List ClientEvent}
    (h : appStep w reply p = some (p', w', events)) : AppEffect w p p' w' events := by
  cases appStep_move h with
  | connect => exact .connect rfl rfl rfl rfl
  | opened | notOpened | reconnect | giveUp => exact .keep rfl rfl rfl rfl (fun _ => rfl) nofun
  | publish => exact .rest (.inr rfl) rfl rfl rfl nofun
  | settle | reset => exact .rest (.inl rfl) rfl rfl rfl nofun
  | defer => exact .defer rfl rfl rfl
  | start connecting hidle => exact .start rfl hidle rfl rfl rfl
  | notRunning caller =>
      cases caller with
      | setAutoReconnect => exact .keep rfl rfl rfl rfl nofun nofun
      | disconnect | free => exact .keep rfl rfl rfl rfl (fun _ => rfl) nofun
  | stop caller hrunning => exact .stop caller rfl hrunning rfl rfl id
  | _ => exact .keep rfl rfl rfl rfl nofun nofun

inductive LoopEffect (w : World) (p p' : LoopPhase) (w' : World) : Prop
  | advance (hw : w' = w) (hflagged : flagged p' = flagged p) (hpending : pending p → pending p')
    (hretry : p' = .retry → w.client.stopReconnect = false)
  | leave (hp : p' = .exited)
    (hw : w' = w.setClient { w.client with reconnectThreadRunning := false })
    (hwhy : pending p → w.client.stopReconnect = true ∨ w.client.state = .connected) (hflagged : flagged p)
  | giveUp (hp : p' = .giveUp)
    (hw : w' = w.setClient { w.client with state := .disconnected, reconnectThreadRunning := false })
    (hflagged : flagged p)
  | retry (hp : p = .retry) (hp' : p' = .attempt)
    (hstate : w'.client.state = .reconnecting)
    (hrunning : w'.client.reconnectThreadRunning = w.client.reconnectThreadRunning)
    (hstop : w'.client.stopReconnect = w.client.stopReconnect)
    (hthread : w'.client.reconnectThread = w.client.reconnectThread)
  | publish (hp : p' = .connected) (hstate : w'.client.state = .connected)
    (hrunning : w'.client.reconnectThreadRunning = w.client.reconnectThreadRunning)
    (hstop : w'.client.stopReconnect = w.client.stopReconnect)
    (hthread : w'.client.reconnectThread = w.client.reconnectThread) (hflagged : flagged p)

theorem loopStep_effect {w w' : World} {reply : ClientReply} {p p' : LoopPhase} {events : List ClientEvent}
    (h : loopStep w reply p = some (p', w', events)) : LoopEffect w p p' w' := by
  cases loopStep_move h with
  | needless hneedless => exact .leave rfl rfl (fun _ => hneedless) rfl
  | giveUp => exact .giveUp rfl rfl rfl
  | stopped _ hp hstop => exact .leave rfl rfl (fun _ => .inl hstop) (by rcases hp with rfl | rfl <;> rfl)
  | again hgo => exact .advance rfl rfl id fun _ => hgo
  | retry => exact .retry rfl rfl rfl rfl rfl rfl
  | publish => exact .publish rfl rfl rfl rfl rfl rfl
  | clear => exact .leave rfl rfl nofun rfl
  | delay | wait | opened | notOpened | connected | failed | backoff | notice => exact .advance rfl rfl id nofun

structure FlagOk (w : World) (apps : Fin n → AppPhase) (loops : List LoopPhase) : Prop where
  running : ∀ k p, loops[k]? = some p → flagged p →
    w.client.reconnectThreadRunning = true ∧ w.client.reconnectThread = some k
  spawning : ∀ i, apps i = .spawn → w.client.reconnectThreadRunning = true ∧ ∀ p ∈ loops, flagged p = false
  single : ∀ i j, apps i = .spawn → apps j = .spawn → i = j

section Flag

variable {w w' : World} {apps : Fin n → AppPhase} {loops : List LoopPhase} {i : Fin n} {p' : AppPhase}

theorem FlagOk.none_flagged (h : FlagOk w apps loops) (hidle : w.client.reconnectThreadRunning = false) :
    (∀ j, apps j ≠ .spawn) ∧ ∀ p ∈ loops, flagged p = false := by
  constructor
  · intro j hj
    rw [(h.spawning j hj).1] at hidle
    cases hidle
  · intro p hp
    obtain ⟨k, hk⟩ := List.mem_iff_getElem?.mp hp
    by_contra hflagged
    rw [(h.running k p hk (by simpa using hflagged)).1] at hidle
    cases hidle

theorem FlagOk.move (h : FlagOk w apps loops)
    (hrunning : w'.client.reconnectThreadRunning = w.client.reconnectThreadRunning)
    (hthread : w'.client.reconnectThread = w.client.reconnectThread) (hp' : p' ≠ .spawn) :
    FlagOk w' (Function.update apps i p') loops := by
  have hother : ∀ j, Function.update apps i p' j = .spawn → apps j = .spawn := by
    apply (Function.forall_update_iff apps fun j q => q = .spawn → apps j = .spawn).mpr
    exact ⟨fun hp => absurd hp hp', fun _ _ => id⟩
  constructor
  · rw [hrunning, hthread]
    exact h.running
  · rw [hrunning]
    exact fun j hj => h.spawning j (hother j hj)
  · exact fun j k hj hk => h.single j k (hother j hj) (hother k hk)

theorem FlagOk.app {p : AppPhase} {events : List ClientEvent} (h : FlagOk w apps loops)
    (he : AppEffect w p p' w' events) : FlagOk w' (Function.update apps i p') loops := by
  cases he with
  | keep hstate hrunning hstop hthread hsettles hspawn => exact h.move hrunning hthread hspawn
  | rest hstate hrunning hstop hthread hspawn => exact h.move hrunning hthread hspawn
  | connect hp hrunning hstop hthread =>
      subst hp
      exact h.move hrunning hthread nofun
  | start hp hidle hrunning hstop hthread =>
      subst hp
      obtain ⟨hnospawn, hnoflag⟩ := h.none_flagged hidle
      have hmine : ∀ j, Function.update apps i .spawn j = .spawn → j = i := by
        intro j hj
        by_contra hji
        rw [Function.update_of_ne hji] at hj
        exact hnospawn j hj
      refine ⟨?_, fun j _ => ⟨hrunning, hnoflag⟩, ?_⟩
      · intro k p hk hp
        rw [hnoflag p (List.mem_of_getElem? hk)] at hp
        cases hp
      · exact fun j k hj hk => (hmine j hj).trans (hmine k hk).symm
  | defer hp hw hevents =>
      subst hp hw
      exact h.move rfl rfl nofun
  | stop caller hp hrunning hw hevents hsettles =>
      subst hp hw
      exact h.move rfl rfl nofun

theorem FlagOk.clear {k : Nat} {p q : LoopPhase} (h : FlagOk w apps loops) (hk : loops[k]? = some p)
    (hp : flagged p) (hq : flagged q = false) : FlagOk w' apps (loops.set k q) := by
  have hnone : ∀ (m : Nat) r, (loops.set k q)[m]? = some r → flagged r = false := by
    intro m r hm
    rw [List.getElem?_set] at hm
    split_ifs at hm with hkm hlt
    · cases hm
      exact hq
    · by_contra hr
      have hthread := (h.running m r hm (by simpa using hr)).2
      rw [(h.running k p hk hp).2] at hthread
      exact hkm (Option.some.inj hthread)
  have hnospawn : ∀ j, apps j ≠ .spawn := by
    intro j hj
    rw [(h.spawning j hj).2 p (List.mem_of_getElem? hk)] at hp
    cases hp
  refine ⟨?_, fun j hj => absurd hj (hnospawn j), fun j _ hj => absurd hj (hnospawn j)⟩
  intro m r hm hr
  rw [hnone m r hm] at hr
  cases hr

theorem FlagOk.advance {k : Nat} {p q : LoopPhase} (h : FlagOk w apps loops) (hk : loops[k]? = some p)
    (hq : flagged q = flagged p) (hrunning : w'.client.reconnectThreadRunning = w.client.reconnectThreadRunning)
    (hthread : w'.client.reconnectThread = w.client.reconnectThread) : FlagOk w' apps (loops.set k q) := by
  have hold : ∀ (m : Nat) r, (loops.set k q)[m]? = some r → ∃ r', loops[m]? = some r' ∧ flagged r = flagged r' := by
    intro m r hm
    rw [List.getElem?_set] at hm
    split_ifs at hm with hkm hlt
    · subst hkm
      cases hm
      exact ⟨p, hk, hq⟩
    · exact ⟨r, hm, rfl⟩
  constructor
  · rw [hrunning, hthread]
    intro m r hm hr
    obtain ⟨r', hm', hr'⟩ := hold m r hm
    exact h.running m r' hm' (hr' ▸ hr)
  · rw [hrunning]
    intro j hj
    refine ⟨(h.spawning j hj).1, fun r hr => ?_⟩
    obtain ⟨m, hm⟩ := List.mem_iff_getElem?.mp hr
    obtain ⟨r', hm', hr'⟩ := hold m r hm
    rw [hr']
    exact (h.spawning j hj).2 r' (List.mem_of_getElem? hm')
  · exact h.single

theorem FlagOk.loop {k : Nat} {p q : LoopPhase} (h : FlagOk w apps loops) (hk : loops[k]? = some p)
    (he : LoopEffect w p q w') : FlagOk w' apps (loops.set k q) := by
  cases he with
  | advance hw hflagged hpending hretry =>
      subst hw
      exact h.advance hk hflagged rfl rfl
  | leave hp hw hwhy hflagged =>
      subst hp
      exact h.clear hk hflagged rfl
  | giveUp hp hw hflagged =>
      subst hp
      exact h.clear hk hflagged rfl
  | retry hp hp' hstate hrunning hstop hthread =>
      subst hp hp'
      exact h.advance hk rfl hrunning hthread
  | publish hp hstate hrunning hstop hthread hflagged =>
      subst hp
      exact h.advance hk hflagged.symm hrunning hthread

end Flag

theorem FlagOk.spawn {s : System n} {i : Fin n} (h : FlagOk s.world s.apps s.loops) (hi : s.apps i = .spawn)
    (created : Bool) : FlagOk (s.spawn i created).1.world (s.spawn i created).1.apps (s.spawn i created).1.loops := by
  obtain ⟨hrunning, hnoflag⟩ := h.spawning i hi
  have hothers : ∀ j, Function.update s.apps i .idle j ≠ .spawn := by
    apply (Function.forall_update_iff s.apps fun _ q => q ≠ .spawn).mpr
    exact ⟨nofun, fun j hji hj => hji (h.single j i hj hi)⟩
  cases created with
  | false =>
      refine ⟨h.running, fun j hj => absurd hj (hothers j), fun j _ hj => absurd hj (hothers j)⟩
  | true =>
      refine ⟨?_, fun j hj => absurd hj (hothers j), fun j _ hj => absurd hj (hothers j)⟩
      intro k p hk hp
      refine ⟨hrunning, ?_⟩
      simp only [System.spawn, if_true] at hk ⊢
      rw [List.getElem?_append] at hk
      split_ifs at hk with hlt
      · rw [hnoflag p (List.mem_of_getElem? hk)] at hp
        cases hp
      · rw [List.getElem?_singleton] at hk
        split_ifs at hk with hzero
        simp only [System.app, World.setClient]
        congr 1
        omega

theorem isConnected_client (w : World) (peerClosed : Bool) :
    (akTcpClientIsConnected w peerClosed).1.client = w.client := by
  rw [akTcpClientIsConnected]
  split
  all_goals rfl

theorem FlagOk.step {s s' : System n} {events : List ClientEvent} (h : FlagOk s.world s.apps s.loops)
    (hs : Step s events s') : FlagOk s'.world s'.apps s'.loops := by
  cases hs with
  | begin i p hidle hp hlive =>
      refine h.move rfl rfl ?_
      rintro rfl
      cases hp
  | beginFree i hidle hlive => exact h.move rfl rfl nofun
  | app i reply p world _ ha => exact h.app (appStep_effect ha)
  | spawn i created hi => exact h.spawn hi created
  | join i caller hi hjoined =>
      refine h.move rfl rfl ?_
      cases caller <;> exact nofun
  | isConnected i peerClosed hidle hlive =>
      have hclient := isConnected_client s.world peerClosed
      refine ⟨?_, ?_, h.single⟩
      · simpa only [hclient] using h.running
      · simpa only [hclient] using h.spawning
  | loop k reply p p' world _ hk hl => exact h.loop hk (loopStep_effect hl)
  | release i hi => exact h.move rfl rfl nofun

/-- A reconnect thread is being created or has an outcome still to store, and
is not told to stop. -/
def Reconnecting (s : System n) : Prop :=
  s.world.client.stopReconnect = false ∧ ((∃ i, s.apps i = .spawn) ∨ ∃ p ∈ s.loops, pending p = true)

/-- While the client's state says that a connection is under way, somebody will
still change it. -/
def Justified (s : System n) : Prop :=
  ¬atRest s.world.client.state → (∃ i, settles (s.apps i) = true) ∨ Reconnecting s

/-- `ak_tcp_client_set_auto_reconnect` stops no reconnect thread that has an
outcome still to store, a reconnect thread can be created, and a failed
connect that finds one running leaves the client to one that will settle its
state. -/
structure LeavesSettled (s : System n) (events : List ClientEvent) : Prop where
  stopped : .stopped .setAutoReconnect ∈ events → (∀ i, s.apps i ≠ .spawn) ∧ ∀ p ∈ s.loops, pending p = false
  spawned : .spawnFailed ∉ events
  deferred : .deferred ∈ events → atRest s.world.client.state ∨ Reconnecting s

def RetryJoined (s : System n) : Prop :=
  .retry ∈ s.loops → s.world.client.stopReconnect = true → ∃ i, ∃ caller ≠ .setAutoReconnect, s.apps i = .join caller

section Progress

variable {s s' : System n} {events : List ClientEvent} {i : Fin n} {w : World} {p : AppPhase} {reply : ClientReply}

theorem appStep_moves (h : appStep w reply (s.apps i) = some (p, w', events)) :
    s.apps i ≠ .spawn ∧ ∀ caller, s.apps i ≠ .join caller := by
  constructor
  · intro hi
    rw [hi] at h
    cases h
  · intro caller hi
    rw [hi] at h
    cases h

theorem Justified.app (hj : Justified s) (hset : LeavesSettled s events)
    (ha : appStep s.world reply (s.apps i) = some (p, w, events)) : Justified (s.app i p w) := by
  obtain ⟨hnospawn, -⟩ := appStep_moves ha
  have hspawn : (∃ j, s.apps j = .spawn) → ∃ j, Function.update s.apps i p j = .spawn := fun h =>
    exists_update (P := (· = AppPhase.spawn)) h fun hi => absurd hi hnospawn
  cases appStep_effect ha with
  | keep hstate hrunning hstop hthread hsettles hp =>
      intro hrest
      rw [System.app, hstate] at hrest
      rcases hj hrest with hcall | ⟨hgo, hthreads⟩
      · exact .inl (exists_update (P := fun q => settles q = true) hcall hsettles)
      · exact .inr ⟨hstop.trans hgo, hthreads.imp_left hspawn⟩
  | rest hstate => exact fun hrest => absurd hstate hrest
  | connect hp =>
      subst hp
      exact fun _ => .inl ⟨i, by simp [System.app, settles, connects, disconnects]⟩
  | start hp hidle hrunning hstop hthread =>
      subst hp
      exact fun _ => .inr ⟨hstop, .inl ⟨i, by simp [System.app]⟩⟩
  | defer hp hw hevents =>
      subst hw hevents
      intro hrest
      rcases hset.deferred (List.mem_singleton_self _) with hold | ⟨hgo, hthreads⟩
      · exact absurd hold hrest
      · exact .inr ⟨hgo, hthreads.imp_left hspawn⟩
  | stop caller hp hrunning hw hevents hsettles =>
      subst hp hw hevents
      intro hrest
      rcases hj hrest with hcall | ⟨hgo, hthreads⟩
      · exact .inl (exists_update (P := fun q => settles q = true) hcall hsettles)
      · by_cases hcaller : caller = .setAutoReconnect
        · subst hcaller
          obtain ⟨hnone, hquiet⟩ := hset.stopped (List.mem_singleton_self _)
          rcases hthreads with ⟨j, hj⟩ | ⟨q, hq, hpend⟩
          · exact absurd hj (hnone j)
          · rw [hquiet q hq] at hpend
            cases hpend
        · exact .inl ⟨i, by simp [System.app, settles, connects, disconnects, hcaller]⟩

theorem RetryJoined.app (hr : RetryJoined s) (hset : LeavesSettled s events)
    (ha : appStep s.world reply (s.apps i) = some (p, w, events)) : RetryJoined (s.app i p w) := by
  obtain ⟨-, hnojoin⟩ := appStep_moves ha
  have hjoin : (∃ j, ∃ caller ≠ .setAutoReconnect, s.apps j = .join caller) →
      ∃ j, ∃ caller ≠ .setAutoReconnect, Function.update s.apps i p j = .join caller := fun h =>
    exists_update (P := fun q => ∃ caller ≠ .setAutoReconnect, q = AppPhase.join caller) h
      fun ⟨caller, _, hi⟩ => absurd hi (hnojoin caller)
  intro hretry hstopped
  cases appStep_effect ha with
  | keep hstate hrunning hstop => exact hjoin (hr hretry (hstop.symm.trans hstopped))
  | rest hstate hrunning hstop => exact hjoin (hr hretry (hstop.symm.trans hstopped))
  | connect hp hrunning hstop => exact hjoin (hr hretry (hstop.symm.trans hstopped))
  | start hp hidle hrunning hstop =>
      rw [System.app, hstop] at hstopped
      cases hstopped
  | defer hp hw =>
      subst hw
      exact hjoin (hr hretry hstopped)
  | stop caller hp hrunning hw hevents =>
      subst hp hevents
      by_cases hcaller : caller = .setAutoReconnect
      · subst hcaller
        have hquiet := (hset.stopped (List.mem_singleton_self _)).2 .retry hretry
        cases hquiet
      · exact ⟨i, caller, hcaller, by simp [System.app]⟩

theorem Justified.loop {k : Nat} {q q' : LoopPhase} (hj : Justified s) (hr : RetryJoined s)
    (hk : s.loops[k]? = some q) (he : LoopEffect s.world q q' w) :
    Justified { s with world := w, loops := s.loops.set k q' } ∧
      RetryJoined { s with world := w, loops := s.loops.set k q' } := by
  have hold : q' ≠ .retry → .retry ∈ s.loops.set k q' → .retry ∈ s.loops := by
    intro hq' hmem
    exact (List.mem_or_eq_of_mem_set hmem).resolve_right hq'.symm
  cases he with
  | advance hw hflagged hpending hretry =>
      subst hw
      constructor
      · intro hrest
        rcases hj hrest with hcall | ⟨hgo, hthreads⟩
        · exact .inl hcall
        · exact .inr ⟨hgo, hthreads.imp_right fun h => exists_mem_set h hk hpending⟩
      · intro hmem hstopped
        by_cases hq' : q' = .retry
        · rw [hretry hq'] at hstopped
          cases hstopped
        · exact hr (hold hq' hmem) hstopped
  | leave hp hw hwhy hflagged =>
      subst hp hw
      refine ⟨?_, fun hmem => hr (hold nofun hmem)⟩
      intro hrest
      rcases hj hrest with hcall | ⟨hgo, hthreads⟩
      · exact .inl hcall
      · refine .inr ⟨hgo, hthreads.imp_right fun h => exists_mem_set h hk fun hpend => ?_⟩
        rcases hwhy hpend with hstop | hstate
        · rw [hgo] at hstop
          cases hstop
        · exact absurd (.inr hstate) hrest
  | giveUp hp hw hflagged =>
      subst hp hw
      exact ⟨fun hrest => absurd (.inl rfl) hrest, fun hmem => hr (hold nofun hmem)⟩
  | retry hp hp' hstate hrunning hstop hthread =>
      subst hp hp'
      refine ⟨fun _ => ?_, fun hmem hstopped => hr (hold nofun hmem) (hstop.symm.trans hstopped)⟩
      have hlt := (List.getElem?_eq_some_iff.mp hk).1
      by_cases hstopped : s.world.client.stopReconnect = true
      · obtain ⟨j, caller, hcaller, hj⟩ := hr (List.mem_of_getElem? hk) hstopped
        exact .inl ⟨j, by simpa [hj, settles, connects, disconnects] using hcaller⟩
      · rw [Bool.not_eq_true] at hstopped
        exact .inr ⟨hstop.trans hstopped, .inr ⟨.attempt, List.mem_set hlt _, rfl⟩⟩
  | publish hp hstate hrunning hstop hthread hflagged =>
      subst hp
      refine ⟨fun hrest => absurd (.inr hstate) hrest, fun hmem hstopped => ?_⟩
      exact hr (hold nofun hmem) (hstop.symm.trans hstopped)

theorem FlagOk.of_joined (h : FlagOk s.world s.apps s.loops) (hjoined : s.joined) :
    ∀ q ∈ s.loops, flagged q = false := by
  intro q hq
  obtain ⟨k, hk⟩ := List.mem_iff_getElem?.mp hq
  by_contra hflagged
  rw [Bool.not_eq_false] at hflagged
  have hthread := (h.running k q hk hflagged).2
  simp only [System.joined, hthread, hk, Option.all_some, decide_eq_true_eq] at hjoined
  rw [hjoined] at hflagged
  cases hflagged

theorem Justified.move (hj : Justified s) (hnospawn : s.apps i ≠ .spawn) (hsettles : settles (s.apps i) → settles p)
    (freeing : Bool) : Justified { s.app i p s.world with freeing } := by
  intro hrest
  rcases hj hrest with hcall | ⟨hgo, hthreads⟩
  · exact .inl (exists_update (P := fun q => settles q = true) hcall hsettles)
  · exact .inr ⟨hgo, hthreads.imp_left fun h =>
      exists_update (P := (· = AppPhase.spawn)) h fun hi => absurd hi hnospawn⟩

theorem RetryJoined.move (hr : RetryJoined s) (hnojoin : ∀ caller, s.apps i ≠ .join caller) (freeing : Bool) :
    RetryJoined { s.app i p s.world with freeing } := by
  intro hretry hstopped
  exact exists_update (P := fun q => ∃ caller ≠ .setAutoReconnect, q = AppPhase.join caller) (hr hretry hstopped)
    fun ⟨caller, _, hi⟩ => absurd hi (hnojoin caller)

theorem Justified.spawn (hj : Justified s) (hi : s.apps i = .spawn) : Justified (s.spawn i true).1 := by
  intro hrest
  rcases hj hrest with hcall | ⟨hgo, -⟩
  · exact .inl (exists_update (P := fun q => settles q = true) hcall (by simp [hi, settles, connects, disconnects]))
  · exact .inr ⟨hgo, .inr ⟨.top, by simp [System.spawn], rfl⟩⟩

theorem RetryJoined.spawn (hr : RetryJoined s) (hi : s.apps i = .spawn) : RetryJoined (s.spawn i true).1 := by
  intro hretry hstopped
  have hold : .retry ∈ s.loops := by simpa [System.spawn] using hretry
  exact exists_update (P := fun q => ∃ caller ≠ .setAutoReconnect, q = AppPhase.join caller) (hr hold hstopped)
    fun ⟨_, _, hjoin⟩ => absurd (hi.symm.trans hjoin) nofun

theorem Justified.step (hj : Justified s) (hr : RetryJoined s) (hflag : FlagOk s.world s.apps s.loops)
    (hs : guarded LeavesSettled Step s events s') : Justified s' ∧ RetryJoined s' := by
  obtain ⟨hstep, hset⟩ := hs
  cases hstep with
  | begin i p hidle hp hlive =>
      exact ⟨hj.move (by simp [hidle]) (by simp [hidle, settles, connects, disconnects]) _, hr.move (by simp [hidle]) _⟩
  | beginFree i hidle hlive =>
      exact ⟨hj.move (by simp [hidle]) (by simp [hidle, settles, connects, disconnects]) true,
        hr.move (by simp [hidle]) true⟩
  | app i reply p world _ ha => exact ⟨hj.app hset ha, hr.app hset ha⟩
  | spawn i created hi =>
      cases created with
      | false => exact absurd (List.mem_singleton_self _) hset.spawned
      | true => exact ⟨hj.spawn hi, hr.spawn hi⟩
  | join i caller hi hjoined =>
      have hnone : .retry ∉ s.loops := fun hmem => absurd (hflag.of_joined hjoined _ hmem) nofun
      refine ⟨hj.move (by simp [hi]) ?_ _, fun hmem => absurd hmem hnone⟩
      rw [hi]
      cases caller <;> simp [settles, connects, disconnects, afterStop]
  | isConnected i peerClosed hidle hlive =>
      have hclient := isConnected_client s.world peerClosed
      constructor
      · simpa only [Justified, Reconnecting, hclient] using hj
      · simpa only [RetryJoined, hclient] using hr
  | loop k reply p p' world _ hk hl => exact hj.loop hr hk (loopStep_effect hl)
  | release i hi =>
      exact ⟨hj.move (by simp [hi]) (by simp [hi, settles, connects, disconnects]) _, hr.move (by simp [hi]) _⟩

end Progress

section Runs

variable {autoReconnect : Bool} {reconnectMaxAttempts : Nat} {trace : List ClientEvent} {s : System n}

theorem FlagOk.start : FlagOk (akTcpClientNew n autoReconnect reconnectMaxAttempts).world
    (akTcpClientNew n autoReconnect reconnectMaxAttempts).apps
    (akTcpClientNew n autoReconnect reconnectMaxAttempts).loops :=
  ⟨nofun, nofun, nofun⟩

/-- Where auto-reconnect is only switched off with nothing to be stored, a state that
says that a connection is under way is changed by somebody. -/
theorem progress_states_justified
    (hrun : Run (guarded LeavesSettled Step) (akTcpClientNew n autoReconnect reconnectMaxAttempts) trace s) :
    Justified s ∧
      ((∀ i, disconnects (s.apps i) = false) → ¬atRest s.world.client.state →
        (∃ i, connects (s.apps i) = true) ∨ Reconnecting s) ∧
      ((∀ i, s.apps i = .idle) → (∀ p ∈ s.loops, p = .exited) → ∀ reply p w events,
        appStep s.world reply .connect = some (p, w, events) → .refused ∉ events) := by
  have hok : FlagOk s.world s.apps s.loops ∧ Justified s ∧ RetryJoined s := by
    apply hrun.invariant (P := fun _ s => FlagOk s.world s.apps s.loops ∧ Justified s ∧ RetryJoined s)
    · exact ⟨FlagOk.start, fun hrest => absurd (.inl rfl) hrest, nofun⟩
    · rintro trace s events s' ⟨hflag, hj, hr⟩ hs
      exact ⟨hflag.step hs.1, hj.step hr hflag hs⟩
  refine ⟨hok.2.1, fun hnone hrest => ?_, fun hidle hexited reply p w events hconnect hrefused => ?_⟩
  · rcases hok.2.1 hrest with ⟨i, hi⟩ | hthread
    · exact .inl ⟨i, by simpa [settles, hnone i] using hi⟩
    · exact .inr hthread
  · have hrest : atRest s.world.client.state := by
      by_contra hrest
      rcases hok.2.1 hrest with ⟨i, hi⟩ | ⟨-, ⟨i, hi⟩ | ⟨q, hq, hpend⟩⟩
      · simp [hidle i, settles, connects, disconnects] at hi
      · simp [hidle i] at hi
      · simp [hexited q hq, pending] at hpend
    rcases hrest with hstate | hstate
    all_goals
      simp only [appStep, hstate] at hconnect
      cases hconnect
      simp at hrefused

/-- A connect fails and leaves the client to a reconnect thread. -/
theorem failed_connect_justified : ∃ trace s, Run (guarded LeavesSettled Step) (akTcpClientNew 1 true 0) trace s ∧
    s.world.client.state = .reconnecting ∧ (∀ i, s.apps i = .idle) ∧ Justified s := by
  let reply : ClientReply := ⟨none, ⟨none, none, "", false, true⟩⟩
  have r₁ : Run (guarded LeavesSettled Step) (akTcpClientNew 1 true 0) _ _ :=
    .next .start ⟨.begin _ 0 .connect rfl rfl rfl, nofun, nofun, nofun⟩
  have r₂ := r₁.next ⟨.app _ 0 reply _ _ _ rfl, nofun, nofun, nofun⟩
  have r₃ := r₂.next ⟨.app _ 0 reply _ _ _ rfl, nofun, nofun, nofun⟩
  have r₄ := r₃.next ⟨.app _ 0 reply _ _ _ rfl, nofun, nofun, nofun⟩
  have r₅ := r₄.next ⟨.app _ 0 reply _ _ _ rfl, nofun, nofun, nofun⟩
  have r₆ := r₅.next ⟨.spawn _ 0 true rfl, nofun, nofun, nofun⟩
  have r₇ := r₆.next ⟨.loop _ 0 reply .top .delay _ _ rfl rfl, by simp, by simp, by simp⟩
  exact ⟨_, _, r₇, rfl, by decide, (progress_states_justified r₇).1⟩

end Runs

/-- The application switches reconnecting off while the thread is at it: the
thread stops and leaves the state behind, and no connect is accepted any more. -/
theorem stopped_reconnect_unjustified : ∃ trace s, Run Step (akTcpClientNew 1 true 0) trace s ∧
    (∀ i, s.apps i = .idle) ∧ (∀ p ∈ s.loops, p = .exited) ∧ ¬Justified s ∧
    ∀ reply, ∃ p w, appStep s.world reply .connect = some (p, w, [.refused]) := by
  let reply : ClientReply := ⟨none, ⟨none, none, "", false, true⟩⟩
  have r₁ := Run.next .start (Step.begin (akTcpClientNew 1 true 0) 0 .connect rfl rfl rfl)
  have r₂ := r₁.next (.app _ 0 reply _ _ _ rfl)
  have r₃ := r₂.next (.app _ 0 reply _ _ _ rfl)
  have r₄ := r₃.next (.app _ 0 reply _ _ _ rfl)
  have r₅ := r₄.next (.app _ 0 reply _ _ _ rfl)
  have r₆ := r₅.next (.spawn _ 0 true rfl)
  have r₇ := r₆.next (.begin _ 0 (.setAutoReconnect false) rfl rfl rfl)
  have r₈ := r₇.next (.app _ 0 reply _ _ _ rfl)
  have r₉ := r₈.next (.app _ 0 reply _ _ _ rfl)
  have r₁₀ := r₉.next (.loop _ 0 reply .top _ _ _ rfl rfl)
  have r₁₁ := r₁₀.next (.join _ 0 .setAutoReconnect rfl rfl)
  refine ⟨_, _, r₁₁, by decide, by decide, ?_, fun reply => ⟨_, _, rfl⟩⟩
  intro hjustified
  rcases hjustified (by rintro (h | h) <;> cases h) with ⟨i, hi⟩ | ⟨hgo, -⟩
  · fin_cases i
    cases hi
  · cases hgo

end Ak24.TcpClientProgress
