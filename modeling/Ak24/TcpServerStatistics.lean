import Ak24.TcpServerModel

namespace Ak24.TcpServerStatistics

open TcpServerModel Transition

def countedFor (k : Nat) : ServerEvent → Option Counter
  | .counted socket counter => if socket = k then some counter else none
  | _ => none

def countings (trace : List ServerEvent) (k : Nat) : List Counter := trace.filterMap (countedFor k)

def counts (counter : Counter) : ServerEvent → Bool
  | .counted _ c => c = counter
  | _ => false

/-- Every socket the loop is done with is counted once, and as accepted when it
went to a worker. -/
def CountedOnce (trace : List ServerEvent) : Prop :=
  ∀ k outcome, .settled k outcome ∈ trace →
    (countings trace k).length = 1 ∧ (.accepted ∈ countings trace k ↔ .settled k .handed ∈ trace)

def counters : Outcome → List Counter
  | .connectionLimit => [.rejectedLimit]
  | .ipLimit => [.rejectedIpLimit]
  | .rateLimit => [.rejectedRate]
  | .refused | .noContext | .noTls => []
  | .noTask | .noLambda | .handed => [.accepted]
  | .queueFull => [.accepted, .rejectedQueue]

def lostLate : Outcome → Bool
  | .noTask | .noLambda | .queueFull => true
  | _ => false

def uncounted : Outcome → Bool
  | .refused | .noContext | .noTls => true
  | _ => false

def current : AcceptPhase → Option Nat
  | .limit c | .track c | .rejectIp c | .rejectRate c | .onConnect c | .context c | .countIn c | .task c | .lambda c
  | .enqueue c | .undo c _ | .untrack c _ | .close c _ => some c.socket
  | .top | .poll | .accept | .recheck | .exited => none

def soFar : AcceptPhase → List Counter
  | .task _ | .lambda _ | .enqueue _ => [.accepted]
  | .undo _ outcome => if outcome = .queueFull then [.accepted] else counters outcome
  | .untrack _ outcome | .close _ outcome => counters outcome
  | _ => []

inductive LedgerEffect (s : System) : List ServerEvent → System → Prop
  | quiet (events : List ServerEvent) (s' : System)
    (hevents : ∀ e ∈ events, e = .trackerFailed ∨ e = .drained) (hcurrent : current s'.accept = current s.accept)
    (hsoFar : soFar s'.accept = soFar s.accept) (hconnections : s'.server.connections = s.server.connections)
    (hsockets : s'.sockets = s.sockets) : LedgerEffect s events s'
  | opened (s' : System) (hcurrent : current s.accept = none) (hcurrent' : current s'.accept = some s.sockets)
    (hsoFar : soFar s'.accept = []) (hconnections : s'.server.connections = s.server.connections)
    (hsockets : s'.sockets = s.sockets + 1) : LedgerEffect s [.opened s.sockets] s'
  | counted (k : Nat) (counter : Counter) (s' : System) (hcurrent : current s.accept = some k)
    (hcurrent' : current s'.accept = some k) (hsoFar : soFar s'.accept = soFar s.accept ++ [counter])
    (hconnections : s'.server.connections = (s.server.count counter).connections)
    (hsockets : s'.sockets = s.sockets) : LedgerEffect s [.counted k counter] s'
  | settled (k : Nat) (outcome : Outcome) (s' : System) (hcurrent : current s.accept = some k)
    (hcurrent' : current s'.accept = none) (hcounters : soFar s.accept = counters outcome)
    (hconnections : s'.server.connections = s.server.connections)
    (hsockets : s'.sockets = s.sockets) : LedgerEffect s [.settled k outcome] s'

theorem current_searching {p : AcceptPhase} (h : searching p) : current p = none ∧ soFar p = [] := by
  cases p with
  | top | poll | accept | recheck | exited => exact ⟨rfl, rfl⟩
  | _ => cases h

section Steps

variable {cfg : Config} {s s' : System} {reply : AcceptReply} {events : List ServerEvent}

theorem acceptStep_ledger (h : acceptStep cfg s reply = some (s', events)) : LedgerEffect s events s' := by
  obtain ⟨server, phase, workers, sockets⟩ := s
  cases acceptStep_move h with
  | search _ p' hp hp' =>
      obtain ⟨hcurrent, hsoFar⟩ := current_searching hp
      obtain ⟨hcurrent', hsoFar'⟩ := current_searching hp'
      exact .quiet _ _ nofun (hcurrent'.trans hcurrent.symm) (hsoFar'.trans hsoFar.symm) rfl rfl
  | opened => exact .opened _ rfl rfl rfl rfl rfl
  | full | rejectIp | rejectRate | countIn | undoQueued => exact .counted _ _ _ rfl rfl rfl rfl rfl
  | trackerFailed => exact .quiet _ _ (fun e he => .inl (List.mem_singleton.mp he)) rfl rfl rfl rfl
  | checked c alloc now t t' trackers verdict => cases verdict <;> exact .quiet _ _ nofun rfl rfl rfl rfl
  | noContext c outcome houtcome =>
      rcases houtcome with rfl | rfl
      all_goals exact .quiet _ _ nofun rfl rfl rfl rfl
  | hand | close => exact .settled _ _ _ rfl rfl rfl rfl rfl
  | undo c outcome hfull => exact .quiet _ _ nofun rfl (if_neg hfull).symm rfl rfl
  | _ => exact .quiet _ _ nofun rfl rfl rfl rfl

theorem step_ledger (hs : Step cfg s events s') : LedgerEffect s events s' := by
  cases hs with
  | start hexited hidle => exact .quiet _ _ nofun (by rw [hexited]; rfl) (by rw [hexited]; rfl) rfl rfl
  | stop | drain => exact .quiet _ _ nofun rfl rfl rfl rfl
  | accept _ reply _ ha => exact acceptStep_ledger ha
  | worker k w w' server _ hk hw =>
      obtain ⟨conn, phase⟩ := w
      cases phase with
      | handle | untrack =>
          cases hw
          exact .quiet _ _ nofun rfl rfl rfl rfl
      | leave =>
          simp only [workerStep] at hw
          cases hw
          refine .quiet _ _ (fun e he => .inr ?_) rfl rfl rfl rfl
          split_ifs at he
          · exact List.mem_singleton.mp he
          · cases he
      | done => cases hw

end Steps

structure LedgerOk (trace : List ServerEvent) (s : System) : Prop where
  totals : ∀ counter, s.server.connections counter = trace.countP (counts counter)
  bound : ∀ k, current s.accept = some k → k < s.sockets
  atHand : ∀ k, current s.accept = some k → countings trace k = soFar s.accept
  fresh : ∀ k, s.sockets ≤ k → countings trace k = []
  settled : ∀ k outcome, .settled k outcome ∈ trace →
    k < s.sockets ∧ current s.accept ≠ some k ∧ countings trace k = counters outcome
  once : ∀ k o o', .settled k o ∈ trace → .settled k o' ∈ trace → o = o'
  done : ∀ k < s.sockets, current s.accept = some k ∨ ∃ outcome, .settled k outcome ∈ trace

section Ledgers

variable {trace events : List ServerEvent} {s s' : System} {k : Nat}

theorem countings_append : countings (trace ++ events) k = countings trace k ++ countings events k :=
  List.filterMap_append

theorem LedgerOk.quiet (h : LedgerOk trace s) (hevents : ∀ e ∈ events, e = .trackerFailed ∨ e = .drained)
    (hcurrent : current s'.accept = current s.accept) (hsoFar : soFar s'.accept = soFar s.accept)
    (hconnections : s'.server.connections = s.server.connections) (hsockets : s'.sockets = s.sockets) :
    LedgerOk (trace ++ events) s' := by
  have hcountings (k : Nat) : countings (trace ++ events) k = countings trace k := by
    have hnone : countings events k = [] := by
      apply List.filterMap_eq_nil_iff.mpr
      intro e he
      rcases hevents e he with rfl | rfl <;> rfl
    rw [countings_append, hnone, List.append_nil]
  have hsettled (k : Nat) (o : Outcome) :
      ServerEvent.settled k o ∈ trace ++ events ↔ ServerEvent.settled k o ∈ trace := by
    constructor
    · intro hmem
      rcases List.mem_append.mp hmem with hold | hnew
      · exact hold
      · rcases hevents _ hnew with h | h <;> cases h
    · exact List.mem_append_left _
  constructor
  · intro counter
    have hnone : events.countP (counts counter) = 0 := by
      apply List.countP_eq_zero.mpr
      intro e he
      rcases hevents e he with rfl | rfl <;> exact nofun
    rw [hconnections, h.totals, List.countP_append, hnone, Nat.add_zero]
  · simpa only [hcurrent, hsockets] using h.bound
  · simpa only [hcurrent, hsoFar, hcountings] using h.atHand
  · simpa only [hsockets, hcountings] using h.fresh
  · simpa only [hcurrent, hsockets, hcountings, hsettled] using h.settled
  · simpa only [hsettled] using h.once
  · simpa only [hcurrent, hsockets, hsettled] using h.done

theorem LedgerOk.opened (h : LedgerOk trace s) (hcurrent : current s.accept = none)
    (hcurrent' : current s'.accept = some s.sockets) (hsoFar : soFar s'.accept = [])
    (hconnections : s'.server.connections = s.server.connections) (hsockets : s'.sockets = s.sockets + 1) :
    LedgerOk (trace ++ [ServerEvent.opened s.sockets]) s' := by
  have hcountings (k : Nat) : countings (trace ++ [ServerEvent.opened s.sockets]) k = countings trace k := by
    rw [countings_append]
    exact List.append_nil _
  have hsettled (k : Nat) (o : Outcome) :
      ServerEvent.settled k o ∈ trace ++ [ServerEvent.opened s.sockets] ↔ ServerEvent.settled k o ∈ trace := by
    simp
  constructor
  · intro counter
    rw [hconnections, h.totals, List.countP_append]
    rfl
  · intro k hk
    rw [hcurrent', Option.some.injEq] at hk
    omega
  · intro k hk
    rw [hcurrent', Option.some.injEq] at hk
    rw [hcountings, hsoFar]
    exact h.fresh k hk.le
  · intro k hk
    rw [hcountings]
    exact h.fresh k (by omega)
  · intro k o ho
    obtain ⟨hlt, -, hcounted⟩ := h.settled k o ((hsettled k o).mp ho)
    refine ⟨by omega, ?_, (hcountings k).trans hcounted⟩
    rw [hcurrent', ne_eq, Option.some.injEq]
    omega
  · simpa only [hsettled] using h.once
  · intro k hk
    rw [hcurrent', Option.some.injEq]
    rcases Nat.lt_succ_iff_lt_or_eq.mp (hsockets ▸ hk) with hlt | heq
    · rcases h.done k hlt with hat | ⟨o, ho⟩
      · rw [hcurrent] at hat
        cases hat
      · exact .inr ⟨o, (hsettled k o).mpr ho⟩
    · exact .inl heq.symm

theorem LedgerOk.counted {counter : Counter} (h : LedgerOk trace s) (hcurrent : current s.accept = some k)
    (hcurrent' : current s'.accept = some k) (hsoFar : soFar s'.accept = soFar s.accept ++ [counter])
    (hconnections : s'.server.connections = (s.server.count counter).connections) (hsockets : s'.sockets = s.sockets) :
    LedgerOk (trace ++ [ServerEvent.counted k counter]) s' := by
  have hother {j : Nat} (hj : j ≠ k) : countings (trace ++ [ServerEvent.counted k counter]) j = countings trace j := by
    simp [countings, countedFor, Ne.symm hj]
  have hsettled (j : Nat) (o : Outcome) :
      ServerEvent.settled j o ∈ trace ++ [ServerEvent.counted k counter] ↔ ServerEvent.settled j o ∈ trace := by
    simp
  constructor
  · intro c
    rw [hconnections, Server.count, List.countP_append, ← h.totals]
    by_cases hc : c = counter
    · subst hc
      simp [counts]
    · simp [counts, hc, Ne.symm hc]
  · intro j hj
    rw [hsockets]
    exact h.bound j (hcurrent.trans (hcurrent'.symm.trans hj))
  · intro j hj
    rw [hcurrent', Option.some.injEq] at hj
    subst hj
    rw [countings_append, h.atHand k hcurrent, hsoFar]
    simp [countings, countedFor]
  · intro j hj
    rw [hsockets] at hj
    have hk := h.bound k hcurrent
    rw [hother (by omega)]
    exact h.fresh j hj
  · intro j o ho
    obtain ⟨hlt, hne, hcounted⟩ := h.settled j o ((hsettled j o).mp ho)
    have hjk : j ≠ k := fun hjk => hne (hjk ▸ hcurrent)
    exact ⟨hsockets ▸ hlt, fun hj => hjk (Option.some.inj (hj.symm.trans hcurrent')), (hother hjk).trans hcounted⟩
  · simpa only [hsettled] using h.once
  · simpa only [hcurrent', hsockets, hsettled, hcurrent] using h.done

theorem LedgerOk.settle {outcome : Outcome} (h : LedgerOk trace s) (hcurrent : current s.accept = some k)
    (hcurrent' : current s'.accept = none) (hcounters : soFar s.accept = counters outcome)
    (hconnections : s'.server.connections = s.server.connections) (hsockets : s'.sockets = s.sockets) :
    LedgerOk (trace ++ [ServerEvent.settled k outcome]) s' := by
  have hcountings (j : Nat) : countings (trace ++ [ServerEvent.settled k outcome]) j = countings trace j := by
    rw [countings_append]
    exact List.append_nil _
  have hsettled (j : Nat) (o : Outcome) :
      ServerEvent.settled j o ∈ trace ++ [ServerEvent.settled k outcome] ↔
        ServerEvent.settled j o ∈ trace ∨ j = k ∧ o = outcome := by
    simp
  have hnone (o : Outcome) : .settled k o ∉ trace := fun ho => (h.settled k o ho).2.1 hcurrent
  constructor
  · intro counter
    rw [hconnections, h.totals, List.countP_append]
    rfl
  · rw [hcurrent']
    exact nofun
  · rw [hcurrent']
    exact nofun
  · simpa only [hsockets, hcountings] using h.fresh
  · intro j o ho
    rw [hcurrent', hcountings, hsockets]
    rcases (hsettled j o).mp ho with hold | ⟨rfl, rfl⟩
    · obtain ⟨hlt, -, hcounted⟩ := h.settled j o hold
      exact ⟨hlt, nofun, hcounted⟩
    · exact ⟨h.bound j hcurrent, nofun, (h.atHand j hcurrent).trans hcounters⟩
  · intro j o o' ho ho'
    rcases (hsettled j o).mp ho with hold | ⟨rfl, rfl⟩
    · rcases (hsettled j o').mp ho' with hold' | ⟨rfl, rfl⟩
      · exact h.once j o o' hold hold'
      · exact absurd hold (hnone o)
    · rcases (hsettled j o').mp ho' with hold' | ⟨-, rfl⟩
      · exact absurd hold' (hnone o')
      · rfl
  · intro j hj
    rcases h.done j (hsockets ▸ hj) with hat | ⟨o, ho⟩
    · cases hcurrent.symm.trans hat
      exact .inr ⟨outcome, (hsettled k outcome).mpr (.inr ⟨rfl, rfl⟩)⟩
    · exact .inr ⟨o, (hsettled j o).mpr (.inl ho)⟩

theorem LedgerOk.step (h : LedgerOk trace s) (he : LedgerEffect s events s') : LedgerOk (trace ++ events) s' := by
  cases he with
  | quiet _ _ hevents hcurrent hsoFar hconnections hsockets =>
      exact h.quiet hevents hcurrent hsoFar hconnections hsockets
  | opened _ hcurrent hcurrent' hsoFar hconnections hsockets =>
      exact h.opened hcurrent hcurrent' hsoFar hconnections hsockets
  | counted k counter _ hcurrent hcurrent' hsoFar hconnections hsockets =>
      exact h.counted hcurrent hcurrent' hsoFar hconnections hsockets
  | settled k outcome _ hcurrent hcurrent' hcounters hconnections hsockets =>
      exact h.settle hcurrent hcurrent' hcounters hconnections hsockets

end Ledgers

section Runs

variable {cfg : Config} {trace : List ServerEvent} {s : System}

theorem run_ledgerOk (hrun : Run (Step cfg) akTcpServerNew trace s) : LedgerOk trace s := by
  apply hrun.invariant (P := LedgerOk)
  · exact ⟨fun _ => rfl, nofun, nofun, fun _ _ => rfl, nofun, nofun, nofun⟩
  · exact fun trace s events s' h hs => h.step (step_ledger hs)

theorem counters_length {outcome : Outcome} (hlate : lostLate outcome = false) (hcounted : uncounted outcome = false) :
    (counters outcome).length = 1 := by
  cases outcome with
  | noTask | noLambda | queueFull => cases hlate
  | refused | noContext | noTls => cases hcounted
  | _ => rfl

theorem counters_uncounted {outcome : Outcome} (h : uncounted outcome = true) : counters outcome = [] := by
  cases outcome with
  | refused | noContext | noTls => rfl
  | _ => cases h

theorem accepted_mem_counters {outcome : Outcome} (hlate : lostLate outcome = false) :
    .accepted ∈ counters outcome ↔ outcome = .handed := by
  cases outcome <;> simp [counters, lostLate] at hlate ⊢

/-- Every socket the accept loop is done with is counted once, but for the reasons of
which no statistic is kept. -/
theorem server_statistics (hrun : Run (Step cfg) akTcpServerNew trace s) :
    (∀ counter, s.server.connections counter = trace.countP (counts counter)) ∧
      (∀ k < s.sockets, current s.accept = some k ∨ ∃ outcome, .settled k outcome ∈ trace) ∧
      ∀ k outcome, .settled k outcome ∈ trace → lostLate outcome = false →
        (if uncounted outcome then countings trace k = []
          else countings trace k = counters outcome ∧ (countings trace k).length = 1) ∧
        (.accepted ∈ countings trace k ↔ .settled k .handed ∈ trace) := by
  have hok := run_ledgerOk hrun
  refine ⟨hok.totals, hok.done, fun k outcome hsettled hlate => ?_⟩
  have hcountings := (hok.settled k outcome hsettled).2.2
  rw [hcountings, accepted_mem_counters hlate]
  constructor
  · split_ifs with huncounted
    · exact counters_uncounted huncounted
    · exact ⟨rfl, counters_length hlate (by simpa using huncounted)⟩
  · constructor
    · rintro rfl
      exact hsettled
    · exact hok.once k outcome .handed hsettled

end Runs

theorem socket_run (accept : Bool) :
    ∃ s, Run (Step ⟨0, 0, 0, true, false⟩) akTcpServerNew
      (if accept then [.opened 0, .counted 0 .accepted, .settled 0 .handed] else [.opened 0, .settled 0 .refused])
      s := by
  let reply : AcceptReply := ⟨.ready, some ⟨[49], by decide⟩, true, 0, accept, true, true, true, true, true⟩
  have r₁ : Run (Step ⟨0, 0, 0, true, false⟩) akTcpServerNew _ _ := .next .start (.start _ rfl rfl)
  have r₂ := r₁.next (.accept _ _ reply _ rfl)
  have r₃ := r₂.next (.accept _ _ reply _ rfl)
  have r₄ := r₃.next (.accept _ _ reply _ rfl)
  have r₅ := r₄.next (.accept _ _ reply _ rfl)
  have r₆ := r₅.next (.accept _ _ reply _ rfl)
  have r₇ := r₆.next (.accept _ _ reply _ rfl)
  cases accept with
  | false =>
      have r₈ := r₇.next (.accept _ _ reply _ rfl)
      exact ⟨_, r₈.next (.accept _ _ reply _ rfl)⟩
  | true =>
      have r₈ := r₇.next (.accept _ _ reply _ rfl)
      have r₉ := r₈.next (.accept _ _ reply _ rfl)
      have r₁₀ := r₉.next (.accept _ _ reply _ rfl)
      have r₁₁ := r₁₀.next (.accept _ _ reply _ rfl)
      exact ⟨_, r₁₁.next (.accept _ _ reply _ rfl)⟩

theorem handed_statistics : ∃ trace s, Run (Step ⟨0, 0, 0, true, false⟩) akTcpServerNew trace s ∧
    .settled 0 .handed ∈ trace ∧ countings trace 0 = [.accepted] ∧ s.server.connections .accepted = 1 := by
  obtain ⟨s, hrun⟩ := socket_run true
  obtain ⟨htotals, -, hcounted⟩ := server_statistics hrun
  refine ⟨_, s, hrun, by decide, ?_, htotals .accepted⟩
  exact (hcounted 0 .handed (by decide) rfl).1.1

/-- A socket that `on_connect` refuses is in no statistic. -/
theorem refused_uncounted : ∃ trace s, Run (Step ⟨0, 0, 0, true, false⟩) akTcpServerNew trace s ∧
    .settled 0 .refused ∈ trace ∧ ¬CountedOnce trace := by
  obtain ⟨s, hrun⟩ := socket_run false
  refine ⟨_, s, hrun, by decide, fun honce => ?_⟩
  exact absurd (honce 0 .refused (by decide)).1 (by decide)

end Ak24.TcpServerStatistics
