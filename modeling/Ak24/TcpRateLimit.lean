import Ak24.RateWindow
import Ak24.TcpServerAccounting

namespace Ak24.TcpRateLimit

open TcpServerModel TcpServerAccounting RateWindow Transition

structure Clocked where
  sys : System
  now : Nat

structure Check where
  ip : RemoteIp
  second : Nat
  verdict : Verdict
  deriving DecidableEq

def checks (cfg : Config) (s : System) (reply : AcceptReply) : List Check :=
  match s.accept with
  | .track c =>
    if tracks cfg then
      match ipTrackerGetOrCreate s.server.ipTrackers c.ip reply.trackerAlloc with
      | none => []
      | some (t, _) => [⟨c.ip, reply.now, (checkTracker cfg reply.now t).1⟩]
    else []
  | _ => []

/-- The steps of the server with a clock that never goes back and trackers that can
be allocated. -/
inductive Tick (cfg : Config) : Clocked → List Check → Clocked → Prop
  | clock (s : Clocked) (now : Nat) (h : s.now ≤ now) : Tick cfg s [] { s with now }
  | accept (s : Clocked) (sys : System) (reply : AcceptReply) (events : List ServerEvent) (hnow : reply.now = s.now)
    (halloc : reply.trackerAlloc = true) (h : acceptStep cfg s.sys reply = some (sys, events)) :
    Tick cfg s (checks cfg s.sys reply) { s with sys }
  | worker (s : Clocked) (k : Nat) (w w' : Worker) (server : Server) (events : List ServerEvent)
    (hk : s.sys.workers[k]? = some w) (h : workerStep s.sys.server w = some (w', server, events)) :
    Tick cfg s [] { s with sys := { s.sys with server, workers := s.sys.workers.set k w' } }
  | start (s : Clocked) (hexited : s.sys.accept = .exited) (hidle : s.sys.server.running = false) :
    Tick cfg s [] { s with sys := { s.sys with accept := .top, server := { s.sys.server with running := true } } }
  | stop (s : Clocked) (hrunning : s.sys.server.running = true) :
    Tick cfg s [] { s with sys := { s.sys with server := { s.sys.server with running := false, draining := true } } }
  | drain (s : Clocked) (hexited : s.sys.accept = .exited) :
    Tick cfg s [] { s with sys := { s.sys with server := { s.sys.server with draining := false } } }

theorem Tick.step {cfg : Config} {s s' : Clocked} {cs : List Check} (h : Tick cfg s cs s') :
    s'.sys = s.sys ∨ ∃ events, Step cfg s.sys events s'.sys := by
  cases h with
  | clock now h => exact Or.inl rfl
  | accept sys reply events hnow halloc h => exact Or.inr ⟨events, .accept s.sys sys reply events h⟩
  | worker k w w' server events hk h => exact Or.inr ⟨events, .worker s.sys k w w' server events hk h⟩
  | start hexited hidle => exact Or.inr ⟨[], .start s.sys hexited hidle⟩
  | stop hrunning => exact Or.inr ⟨[], .stop s.sys hrunning⟩
  | drain hexited => exact Or.inr ⟨[], .drain s.sys hexited⟩

def passes (ip : RemoteIp) (trace : List Check) : List Nat :=
  (trace.filter fun c => c.ip = ip ∧ c.verdict = .admitted).map (·.second)

theorem passes_append (ip : RemoteIp) (trace more : List Check) :
    passes ip (trace ++ more) = passes ip trace ++ passes ip more := by
  rw [passes, List.filter_append, List.map_append]
  rfl

section Trackers

variable {cfg : Config} {trackers trackers' : List IpTracker} {ip : RemoteIp}

def window (t : IpTracker) : Window := ⟨t.lastConnectTime, t.connectsThisSecond⟩

def windowOf (trackers : List IpTracker) (ip : RemoteIp) : Window :=
  ((ipTrackerFind trackers ip).map window).getD ⟨0, 0⟩

theorem windowOf_decrement (server : Server) (ip ip' : RemoteIp) :
    windowOf (ipTrackerDecrement server ip).ipTrackers ip' = windowOf server.ipTrackers ip' := by
  rw [windowOf, windowOf, ipTrackerDecrement, ipTrackerFind_store]
  · split_ifs with hip
    · subst hip
      cases ipTrackerFind server.ipTrackers ip' with
      | none => rfl
      | some t =>
          simp only [Option.map_some, Option.getD_some]
          split_ifs <;> rfl
    · rfl
  · intro t ht
    split_ifs
    all_goals exact ht

theorem windowOf_getOrCreate {t : IpTracker} {alloc : Bool}
    (h : ipTrackerGetOrCreate trackers ip alloc = some (t, trackers')) :
    window t = windowOf trackers ip ∧ t.ip = ip := by
  simp only [ipTrackerGetOrCreate, RemoteIp.copy_eq] at h
  split at h
  · next found hfound =>
      cases h
      exact ⟨by rw [windowOf, hfound]; rfl, ipTrackerFind_ip hfound⟩
  · next hnone =>
      split_ifs at h
      cases h
      exact ⟨by rw [windowOf, hnone]; rfl, rfl⟩

/-- The check is an attempt on the window of the address, unless the address has
too many connections already. -/
theorem checkTracker_window (hlimit : 0 < cfg.connectionRateLimit) {now : Nat} {t t' : IpTracker} {verdict : Verdict}
    (h : checkTracker cfg now t = (verdict, t')) : t'.ip = t.ip ∧
      (verdict = .ipLimited ∧ window t' = window t ∨
        verdict = .rateLimited ∧ (window t).attempt cfg.connectionRateLimit now = (false, window t') ∨
        verdict = .admitted ∧ (window t).attempt cfg.connectionRateLimit now = (true, window t')) := by
  rw [checkTracker] at h
  split_ifs at h with hip hsame hfull
  · cases h
    exact ⟨rfl, Or.inl ⟨rfl, rfl⟩⟩
  · cases h
    exact ⟨rfl, Or.inr (Or.inl ⟨rfl, Window.attempt_full hsame hfull⟩)⟩
  · cases h
    exact ⟨rfl, Or.inr (Or.inr ⟨rfl, Window.attempt_room hsame hfull⟩)⟩
  · cases h
    exact ⟨rfl, Or.inr (Or.inr ⟨rfl, Window.attempt_new hsame⟩)⟩

theorem rateLimited_pos {now : Nat} {t : IpTracker} (h : (checkTracker cfg now t).1 = .rateLimited) :
    0 < cfg.connectionRateLimit := by
  rw [checkTracker] at h
  split_ifs at h with hip hpos
  all_goals exact hpos

end Trackers

/-- Every refusal so far came when as many attempts had passed as may. -/
def Exact (limit : Nat) (trace : List Check) : Prop :=
  ∀ before c after, trace = before ++ c :: after → c.verdict = .rateLimited →
    (passes c.ip before).count c.second = limit

theorem Exact.concat {limit : Nat} {trace : List Check} {c : Check} (h : Exact limit trace)
    (hc : c.verdict = .rateLimited → (passes c.ip trace).count c.second = limit) : Exact limit (trace ++ [c]) := by
  intro before d after he hd
  rcases after.eq_nil_or_concat with rfl | ⟨rest, e, rfl⟩
  · obtain ⟨rfl, hlast⟩ := List.append_inj' he rfl
    obtain rfl : c = d := List.singleton_inj.mp hlast
    exact hc hd
  · rw [List.concat_eq_append, ← List.cons_append, ← List.append_assoc] at he
    obtain ⟨rfl, -⟩ := List.append_inj' he rfl
    exact h before d rest rfl hd

structure Inv (limit : Nat) (trace : List Check) (s : Clocked) : Prop where
  tallied : ∀ ip, Tallied limit (passes ip trace) (windowOf s.sys.server.ipTrackers ip)
  past : ∀ ip, (windowOf s.sys.server.ipTrackers ip).last ≤ s.now
  exact : Exact limit trace

section Runs

variable {cfg : Config} {trace : List Check} {s : Clocked}

theorem Inv.same {limit : Nat} {s' : Clocked} (h : Inv limit trace s)
    (hw : ∀ ip, windowOf s'.sys.server.ipTrackers ip = windowOf s.sys.server.ipTrackers ip) (hnow : s.now ≤ s'.now) :
    Inv limit (trace ++ []) s' := by
  rw [List.append_nil]
  refine ⟨fun ip => ?_, fun ip => ?_, h.exact⟩
  · rw [hw]
    exact h.tallied ip
  · rw [hw]
    exact (h.past ip).trans hnow

theorem windowOf_check {t t' : IpTracker} {trackers trackers' : List IpTracker} {ip : RemoteIp} {alloc : Bool}
    (hget : ipTrackerGetOrCreate trackers ip alloc = some (t, trackers')) (hip : t'.ip = ip) (ip' : RemoteIp) :
    windowOf (ipTrackerStore ip (fun _ => t') trackers') ip' =
      if ip' = ip then window t' else windowOf trackers ip' := by
  obtain ⟨hfind, -, hothers⟩ := ipTrackerGetOrCreate_find hget
  rw [windowOf, ipTrackerFind_store fun _ _ => hip]
  split_ifs with h
  · rw [hfind]
    rfl
  · rw [hothers ip' h, windowOf]

theorem Inv.check {sys : System} {c : Incoming} {t t' : IpTracker} {trackers : List IpTracker} {verdict : Verdict}
    {alloc : Bool} (hlimit : 0 < cfg.connectionRateLimit) (h : Inv cfg.connectionRateLimit trace s)
    (hget : ipTrackerGetOrCreate s.sys.server.ipTrackers c.ip alloc = some (t, trackers))
    (hcheck : checkTracker cfg s.now t = (verdict, t'))
    (hsys : sys.server.ipTrackers = ipTrackerStore c.ip (fun _ => t') trackers) :
    Inv cfg.connectionRateLimit (trace ++ [⟨c.ip, s.now, verdict⟩]) { s with sys } := by
  obtain ⟨hwindow, hip⟩ := windowOf_getOrCreate hget
  obtain ⟨hip', hverdict⟩ := checkTracker_window hlimit hcheck
  have hwindows (ip : RemoteIp) : windowOf sys.server.ipTrackers ip =
      if ip = c.ip then window t' else windowOf s.sys.server.ipTrackers ip := by
    rw [hsys]
    exact windowOf_check hget (hip'.trans hip) ip
  have hold := h.tallied c.ip
  have hlast := h.past c.ip
  rw [← hwindow] at hold hlast
  have hpasses (ip : RemoteIp) : passes ip (trace ++ [⟨c.ip, s.now, verdict⟩]) =
      passes ip trace ++ if c.ip = ip ∧ verdict = .admitted then [s.now] else [] := by
    rw [passes_append]
    congr 1
    simp only [passes, List.filter_singleton]
    by_cases hc : c.ip = ip ∧ verdict = .admitted
    · simp [hc]
    · simp [hc]
  have hnew : Tallied cfg.connectionRateLimit (passes c.ip (trace ++ [⟨c.ip, s.now, verdict⟩])) (window t') ∧
      (window t').last ≤ s.now ∧ (verdict = .rateLimited → (passes c.ip trace).count s.now = cfg.connectionRateLimit) := by
    rw [hpasses]
    rcases hverdict with ⟨rfl, hsame⟩ | ⟨rfl, hrefused⟩ | ⟨rfl, hpassed⟩
    · rw [hsame]
      exact ⟨by simpa using hold, hlast, by simp⟩
    · obtain ⟨hfull, hsame⟩ := hold.refuse hrefused
      rw [hsame]
      exact ⟨by simpa using hold, hlast, fun _ => hfull⟩
    · obtain ⟨htallied, hnow⟩ := hold.pass hlimit hlast hpassed
      exact ⟨by simpa using htallied, hnow.le, by simp⟩
  refine ⟨fun ip => ?_, fun ip => ?_, h.exact.concat hnew.2.2⟩
  · rw [hwindows]
    split_ifs with he
    · rw [he]
      exact hnew.1
    · rw [hpasses, if_neg (fun hc => he hc.1.symm), List.append_nil]
      exact h.tallied ip
  · rw [hwindows]
    split_ifs with he
    · exact hnew.2.1
    · exact h.past ip

theorem windowOf_move {server : Server} {workers : List Worker} {sockets : Nat} {p : AcceptPhase} {s' : System}
    {events : List ServerEvent} (h : AcceptMove cfg server workers sockets p s' events) (hp : ∀ c, p ≠ .track c)
    (ip : RemoteIp) : windowOf s'.server.ipTrackers ip = windowOf server.ipTrackers ip := by
  cases h with
  | trackerless c | trackerFailed c | checked c => exact absurd rfl (hp c)
  | untrack c outcome => exact windowOf_decrement server c.ip ip
  | _ => rfl

theorem windowOf_worker {server server' : Server} {w w' : Worker} {events : List ServerEvent}
    (h : workerStep server w = some (w', server', events)) (ip : RemoteIp) :
    windowOf server'.ipTrackers ip = windowOf server.ipTrackers ip := by
  rw [workerStep] at h
  split at h
  · cases h
    rfl
  · cases h
    exact windowOf_decrement server w.conn.ip ip
  · cases h
    rfl
  · cases h

theorem checks_nil {reply : AcceptReply} (h : ∀ c, s.sys.accept ≠ .track c) : checks cfg s.sys reply = [] := by
  rw [checks]
  split
  · next c hc => exact absurd hc (h c)
  · rfl

theorem Inv.step {s' : Clocked} {cs : List Check} (hlimit : 0 < cfg.connectionRateLimit)
    (h : Inv cfg.connectionRateLimit trace s) (ht : Tick cfg s cs s') : Inv cfg.connectionRateLimit (trace ++ cs) s' := by
  cases ht with
  | clock now hle => exact h.same (fun _ => rfl) hle
  | accept sys reply events hnow halloc hstep =>
      by_cases htrack : ∃ c, s.sys.accept = .track c
      · obtain ⟨c, hc⟩ := htrack
        have htracks : tracks cfg = true := by simp [tracks, hlimit]
        simp only [acceptStep, hc, if_pos htracks] at hstep
        simp only [checks, hc, if_pos htracks]
        cases hget : ipTrackerGetOrCreate s.sys.server.ipTrackers c.ip reply.trackerAlloc with
        | none =>
            rw [ipTrackerGetOrCreate, halloc] at hget
            split at hget <;> cases hget
        | some found =>
            obtain ⟨t, trackers⟩ := found
            simp only [hget] at hstep ⊢
            cases hstep
            rw [hnow]
            exact h.check hlimit hget rfl rfl
      · have hno (c : Incoming) : s.sys.accept ≠ .track c := fun hc => htrack ⟨c, hc⟩
        rw [checks_nil hno]
        exact h.same (windowOf_move (acceptStep_move hstep) hno) le_rfl
  | worker k w w' server events hk hstep => exact h.same (windowOf_worker hstep) le_rfl
  | start hexited hidle => exact h.same (fun _ => rfl) le_rfl
  | stop hrunning => exact h.same (fun _ => rfl) le_rfl
  | drain hexited => exact h.same (fun _ => rfl) le_rfl

theorem rateLimited_of_mem {cs : List Check} {s' : Clocked} (ht : Tick cfg s cs s') {c : Check} (hc : c ∈ cs)
    (hv : c.verdict = .rateLimited) : 0 < cfg.connectionRateLimit := by
  cases ht with
  | accept sys reply events hnow halloc hstep =>
      rw [checks] at hc
      split at hc
      · split_ifs at hc
        · split at hc
          · exact absurd hc List.not_mem_nil
          · rw [List.mem_singleton.mp hc] at hv
            exact rateLimited_pos hv
        · exact absurd hc List.not_mem_nil
      · exact absurd hc List.not_mem_nil
  | _ => exact absurd hc List.not_mem_nil

/-- In every run, at most `connection_rate_limit` attempts of an address pass the
check in a second, and an attempt is refused for the rate only if exactly that many
have passed. -/
theorem rate_limit (cfg : Config) (now₀ : Nat) (trace : List Check) (s : Clocked)
    (h : Run (Tick cfg) ⟨akTcpServerNew, now₀⟩ trace s) :
    (0 < cfg.connectionRateLimit → ∀ ip second, (passes ip trace).count second ≤ cfg.connectionRateLimit) ∧
      ∀ before c after, trace = before ++ c :: after → c.verdict = .rateLimited →
        0 < cfg.connectionRateLimit ∧ (passes c.ip before).count c.second = cfg.connectionRateLimit := by
  have hinv (hlimit : 0 < cfg.connectionRateLimit) : Inv cfg.connectionRateLimit trace s := by
    refine h.invariant ⟨fun ip => Tallied.fresh _, fun ip => Nat.zero_le _, fun before c after he => ?_⟩
      fun trace s cs s' hi ht => hi.step hlimit ht
    exact absurd he (by simp)
  have hverdict : ∀ c ∈ trace, c.verdict = .rateLimited → 0 < cfg.connectionRateLimit := by
    refine h.invariant (P := fun trace _ => ∀ c ∈ trace, c.verdict = .rateLimited → 0 < cfg.connectionRateLimit)
      (fun c hc => absurd hc List.not_mem_nil) fun trace s cs s' hi ht c hc => ?_
    rcases List.mem_append.mp hc with hc | hc
    · exact hi c hc
    · exact rateLimited_of_mem ht hc
  refine ⟨fun hlimit ip second => ((hinv hlimit).tallied ip).bounded second, fun before c after he hv => ?_⟩
  have hlimit := hverdict c (by rw [he]; simp) hv
  exact ⟨hlimit, (hinv hlimit).exact before c after he hv⟩

end Runs

def acceptTick (cfg : Config) (s : Clocked) (reply : AcceptReply) : Option (List Check × Clocked) :=
  if reply.now = s.now ∧ reply.trackerAlloc = true then
    (acceptStep cfg s.sys reply).map fun r => (checks cfg s.sys reply, { s with sys := r.1 })
  else none

theorem tick_of_acceptTick {cfg : Config} {s s' : Clocked} {reply : AcceptReply} {cs : List Check}
    (h : acceptTick cfg s reply = some (cs, s')) : Tick cfg s cs s' := by
  rw [acceptTick] at h
  split_ifs at h with hreply
  obtain ⟨⟨sys, events⟩, hstep, he⟩ := Option.map_eq_some_iff.mp h
  cases he
  exact .accept s sys reply events hreply.1 hreply.2 hstep

/-- Two attempts of one address in a second that allows one, both refused in the
end: the first by the application. -/
theorem rate_limit_two :
    ∃ trace s, Run (Tick ⟨0, 0, 1, true, false⟩) ⟨akTcpServerNew, 7⟩ trace s ∧
      trace = [⟨⟨[], by decide⟩, 7, .admitted⟩, ⟨⟨[], by decide⟩, 7, .rateLimited⟩] ∧
      (passes ⟨[], by decide⟩ [⟨⟨[], by decide⟩, 7, .admitted⟩]).count 7 = 1 := by
  have hstart : Run (Tick ⟨0, 0, 1, true, false⟩) ⟨akTcpServerNew, 7⟩ [] ⟨akTcpServerNew, 7⟩ := .start
  have hnext : ∀ s reply cs s', acceptTick ⟨0, 0, 1, true, false⟩ s reply = some (cs, s') →
      Tick ⟨0, 0, 1, true, false⟩ s cs s' := fun _ _ _ _ => tick_of_acceptTick
  have hrun := (hstart.next (.start _ rfl rfl)).script hnext
    (List.replicate 13
      (⟨.ready, some ⟨[], by decide⟩, true, 7, false, true, true, true, true, true⟩ : AcceptReply)) rfl
  exact ⟨_, _, hrun, rfl, ((rate_limit _ 7 _ _ hrun).2 [_] _ [] rfl rfl).2⟩

end Ak24.TcpRateLimit
