import Ak24.TcpServerModel

namespace Ak24.TcpServerAccounting

open TcpServerModel Transition

def trackedCount (trackers : List IpTracker) (ip : RemoteIp) : Nat :=
  ((ipTrackerFind trackers ip).map (·.activeCount)).getD 0

section Trackers

variable {trackers trackers' : List IpTracker} {ip : RemoteIp} {f : IpTracker → IpTracker} {cfg : Config}

theorem ipTrackerFind_ip {t : IpTracker} (h : ipTrackerFind trackers ip = some t) : t.ip = ip := by
  simpa using List.find?_some h

theorem ipTrackerFind_store (hf : ∀ t, t.ip = ip → (f t).ip = ip) (ip' : RemoteIp) :
    ipTrackerFind (ipTrackerStore ip f trackers) ip' =
      if ip' = ip then (ipTrackerFind trackers ip).map f else ipTrackerFind trackers ip' := by
  induction trackers with
  | nil => simp [ipTrackerStore, ipTrackerFind]
  | cons t trackers ih =>
      simp only [ipTrackerFind] at ih ⊢
      by_cases ht : t.ip = ip
      · by_cases hip : ip' = ip
        · simp [ipTrackerStore, ht, hip, hf t ht]
        · simp [ipTrackerStore, ht, hip, Ne.symm hip, hf t ht]
      · by_cases hip : ip' = ip
        · subst hip
          simpa [ipTrackerStore, ht] using ih
        · by_cases ht' : t.ip = ip'
          · simp [ipTrackerStore, ht', hip]
          · simpa [ipTrackerStore, ht, ht', hip] using ih

theorem trackedCount_decrement (server : Server) (ip ip' : RemoteIp) :
    trackedCount (ipTrackerDecrement server ip).ipTrackers ip' =
      trackedCount server.ipTrackers ip' - if ip' = ip then 1 else 0 := by
  rw [trackedCount, trackedCount, ipTrackerDecrement, ipTrackerFind_store]
  · split_ifs with hip
    · subst hip
      cases hfind : ipTrackerFind server.ipTrackers ip' with
      | none => rfl
      | some t =>
          simp only [Option.map_some, Option.getD_some]
          split_ifs with hpos
          · rfl
          · omega
    · rfl
  · intro t ht
    split_ifs
    all_goals exact ht

theorem ipTrackerGetOrCreate_find {t : IpTracker} {alloc : Bool}
    (h : ipTrackerGetOrCreate trackers ip alloc = some (t, trackers')) :
    ipTrackerFind trackers' ip = some t ∧ t.activeCount = trackedCount trackers ip ∧
      ∀ ip' ≠ ip, ipTrackerFind trackers' ip' = ipTrackerFind trackers ip' := by
  simp only [ipTrackerGetOrCreate, RemoteIp.copy_eq] at h
  split at h
  · rename_i found hfound
    cases h
    exact ⟨hfound, by simp [trackedCount, hfound], fun _ _ => rfl⟩
  · rename_i hnone
    split_ifs at h
    cases h
    refine ⟨by simp [ipTrackerFind], by simp [trackedCount, hnone], fun ip' hip => ?_⟩
    simp [ipTrackerFind, Ne.symm hip]

theorem checkTracker_cases {now : Nat} {t t' : IpTracker} {verdict : Verdict}
    (h : checkTracker cfg now t = (verdict, t')) :
    verdict ≠ .admitted ∧ t' = t ∨
      verdict = .admitted ∧ t'.ip = t.ip ∧ t'.activeCount = t.activeCount + 1 ∧
        (0 < cfg.maxConnectionsPerIp → t.activeCount < cfg.maxConnectionsPerIp) := by
  rw [checkTracker] at h
  split_ifs at h with hlimit hrate hnow hfull
  · cases h
    exact .inl ⟨nofun, rfl⟩
  · cases h
    exact .inl ⟨nofun, rfl⟩
  all_goals
    cases h
    refine .inr ⟨rfl, rfl, rfl, fun hpos => ?_⟩
    by_contra hle
    exact hlimit ⟨hpos, Nat.le_of_not_lt hle⟩

theorem trackedCount_check {now : Nat} {t t' : IpTracker} {alloc : Bool} {verdict : Verdict}
    (h : ipTrackerGetOrCreate trackers ip alloc = some (t, trackers')) (hcheck : checkTracker cfg now t = (verdict, t'))
    (ip' : RemoteIp) :
    trackedCount (ipTrackerStore ip (fun _ => t') trackers') ip' =
      trackedCount trackers ip' + if verdict = .admitted ∧ ip' = ip then 1 else 0 := by
  obtain ⟨hfind, hcount, hothers⟩ := ipTrackerGetOrCreate_find h
  have hip := ipTrackerFind_ip hfind
  rcases checkTracker_cases hcheck with ⟨hverdict, rfl⟩ | ⟨rfl, hsame, hactive, -⟩
  · rw [trackedCount, ipTrackerFind_store fun _ _ => hip]
    by_cases heq : ip' = ip
    · simp [heq, hfind, hverdict, hcount]
    · simp [heq, hothers ip' heq, trackedCount]
  · rw [trackedCount, ipTrackerFind_store fun _ _ => hsame.trans hip]
    by_cases heq : ip' = ip
    · simp [heq, hfind, hactive, hcount]
    · simp [heq, hothers ip' heq, trackedCount]

end Trackers

/-- The accept loop has counted its context in and neither handed it over nor
taken it back. -/
def inside : AcceptPhase → Bool
  | .task _ | .lambda _ | .enqueue _ | .undo _ _ => true
  | _ => false

def admits : AcceptPhase → Option RemoteIp
  | .onConnect c | .context c | .countIn c | .task c | .lambda c | .enqueue c | .undo c _ | .untrack c _ => some c.ip
  | _ => none

def inGap : AcceptPhase → Bool
  | .track _ | .onConnect _ | .context _ | .countIn _ => true
  | _ => false

def countsActive : WorkerPhase → Bool
  | .handle | .untrack | .leave => true
  | .done => false

def countsTracker : WorkerPhase → Bool
  | .handle | .untrack => true
  | .leave | .done => false

def countedIn (s : System) : Nat := (if inside s.accept then 1 else 0) + s.workers.countP (countsActive ·.phase)

/-- The connections of an address admitted and not yet released. -/
def admittedFrom (s : System) (ip : RemoteIp) : Nat :=
  (if admits s.accept = some ip then 1 else 0) + s.workers.countP fun w => countsTracker w.phase && w.conn.ip = ip

def TrackersAllocated (_ : System) (events : List ServerEvent) : Prop := .trackerFailed ∉ events

structure AccountOk (cfg : Config) (s : System) : Prop where
  active : s.server.activeConnections = countedIn s
  limit : 0 < cfg.maxConnections → s.server.activeConnections ≤ cfg.maxConnections
  room : 0 < cfg.maxConnections → inGap s.accept → s.server.activeConnections < cfg.maxConnections
  tracked : tracks cfg → ∀ ip, trackedCount s.server.ipTrackers ip = admittedFrom s ip
  ipLimit : 0 < cfg.maxConnectionsPerIp → ∀ ip, trackedCount s.server.ipTrackers ip ≤ cfg.maxConnectionsPerIp

theorem searching_outside {p : AcceptPhase} (h : searching p) :
    inside p = false ∧ admits p = none ∧ inGap p = false := by
  cases p with
  | top | poll | accept | recheck | exited => exact ⟨rfl, rfl, rfl⟩
  | _ => cases h

inductive AcceptEffect (cfg : Config) (s : System) : System → Prop
  | move (p : AcceptPhase) (sockets : Nat) (connections : Counter → Nat) (hinside : inside p = inside s.accept)
    (hadmits : tracks cfg → admits p = admits s.accept)
    (hgap : inGap p → inGap s.accept ∨ limitReached cfg s.server = false) :
    AcceptEffect cfg s { s with accept := p, server := { s.server with connections }, sockets }
  | check (c : Incoming) (verdict : Verdict) (trackers : List IpTracker) (hp : s.accept = .track c)
    (hcount : ∀ ip, trackedCount trackers ip =
      trackedCount s.server.ipTrackers ip + if verdict = .admitted ∧ ip = c.ip then 1 else 0)
    (hroom : verdict = .admitted → 0 < cfg.maxConnectionsPerIp →
      trackedCount s.server.ipTrackers c.ip < cfg.maxConnectionsPerIp) :
    AcceptEffect cfg s { s with accept := afterVerdict c verdict, server := { s.server with ipTrackers := trackers } }
  | countIn (c : Incoming) (connections : Counter → Nat) (hp : s.accept = .countIn c) :
    AcceptEffect cfg s
      { s with
        accept := .task c
        server := { s.server with connections, activeConnections := s.server.activeConnections + 1 } }
  | hand (c : Incoming) (hp : s.accept = .enqueue c) :
    AcceptEffect cfg s { s with accept := .top, workers := s.workers ++ [⟨c, .handle⟩] }
  | undo (c : Incoming) (outcome : Outcome) (connections : Counter → Nat) (hp : s.accept = .undo c outcome) :
    AcceptEffect cfg s { s with accept := .untrack c outcome, server := { s.server.leave with connections } }
  | untrack (c : Incoming) (outcome : Outcome) (hp : s.accept = .untrack c outcome) :
    AcceptEffect cfg s { s with accept := .close c outcome, server := ipTrackerDecrement s.server c.ip }

section Steps

variable {cfg : Config} {s s' : System} {reply : AcceptReply} {events : List ServerEvent}

theorem acceptStep_effect (h : acceptStep cfg s reply = some (s', events)) (halloc : .trackerFailed ∉ events) :
    AcceptEffect cfg s s' := by
  obtain ⟨server, phase, workers, sockets⟩ := s
  cases acceptStep_move h with
  | search _ p' hp hp' =>
      obtain ⟨hinside, hadmits, -⟩ := searching_outside hp
      obtain ⟨hinside', hadmits', hgap⟩ := searching_outside hp'
      exact .move _ sockets server.connections (hinside'.trans hinside.symm) (fun _ => hadmits'.trans hadmits.symm)
        (by simp [hgap])
  | opened => exact .move _ _ server.connections rfl (fun _ => rfl) nofun
  | full | rejectIp | rejectRate => exact .move _ sockets _ rfl (fun _ => rfl) nofun
  | room c hroom => exact .move _ sockets server.connections rfl (fun _ => rfl) fun _ => .inr hroom
  | trackerless c htracks =>
      exact .move _ sockets server.connections rfl (fun ht => by simp [htracks] at ht) fun _ => .inl rfl
  | trackerFailed => exact absurd (List.mem_singleton_self _) halloc
  | checked c alloc now t t' trackers verdict hget hcheck =>
      refine .check c verdict _ rfl (trackedCount_check hget hcheck) fun hadmitted hpos => ?_
      rcases checkTracker_cases hcheck with ⟨hnot, -⟩ | ⟨-, -, -, hroom⟩
      · exact absurd hadmitted hnot
      · rw [← (ipTrackerGetOrCreate_find hget).2.1]
        exact hroom hpos
  | onConnect | context => exact .move _ sockets server.connections rfl (fun _ => rfl) fun _ => .inl rfl
  | refuse | noContext | noTask | task | noLambda | lambda | queueFull | close =>
      exact .move _ sockets server.connections rfl (fun _ => rfl) nofun
  | countIn c => exact .countIn c _ rfl
  | hand c => exact .hand c rfl
  | undoQueued c => exact .undo c .queueFull _ rfl
  | undo c outcome => exact .undo c outcome server.connections rfl
  | untrack c outcome => exact .untrack c outcome rfl

theorem room_of_limitReached {server : Server} (h : limitReached cfg server = false) (hpos : 0 < cfg.maxConnections) :
    server.activeConnections < cfg.maxConnections := by
  simpa [limitReached, hpos] using h

theorem leave_activeConnections (server : Server) : server.leave.activeConnections = server.activeConnections - 1 := by
  simp only [Server.leave]
  split_ifs with hpos
  · rfl
  · omega

theorem AccountOk.accept (h : AccountOk cfg s) (he : AcceptEffect cfg s s') : AccountOk cfg s' := by
  cases he with
  | move p sockets connections hinside hadmits hgap =>
      constructor
      · simpa only [countedIn, hinside] using h.active
      · exact h.limit
      · intro hpos hp
        rcases hgap hp with hold | hroom
        · exact h.room hpos hold
        · exact room_of_limitReached hroom hpos
      · intro htracks ip
        simpa only [admittedFrom, hadmits htracks] using h.tracked htracks ip
      · exact h.ipLimit
  | check c verdict trackers hp hcount hroom =>
      constructor
      · have hactive := h.active
        rw [countedIn, hp] at hactive
        cases verdict <;> exact hactive
      · exact h.limit
      · intro hpos _
        exact h.room hpos (by rw [hp]; rfl)
      · intro htracks ip
        have htracked := h.tracked htracks ip
        simp only [admittedFrom, hp, admits, reduceCtorEq, if_false, Nat.zero_add] at htracked
        simp only [admittedFrom, hcount ip, htracked]
        cases verdict with
        | admitted => simp [admits, afterVerdict, eq_comm, Nat.add_comm]
        | _ => simp [admits, afterVerdict]
      · intro hpos ip
        have hle := h.ipLimit hpos ip
        simp only [hcount ip]
        split_ifs with hin
        · obtain ⟨hadmitted, rfl⟩ := hin
          exact hroom hadmitted hpos
        · exact hle
  | countIn c connections hp =>
      constructor
      · have hactive := h.active
        simp only [countedIn, hp, inside, Bool.false_eq_true, if_false] at hactive
        simp only [countedIn, inside, if_true, hactive]
        omega
      · exact fun hpos => h.room hpos (by rw [hp]; rfl)
      · exact nofun
      · intro htracks ip
        simpa [admittedFrom, hp, admits] using h.tracked htracks ip
      · exact h.ipLimit
  | hand c hp =>
      constructor
      · simpa [countedIn, hp, inside, countsActive, Nat.add_comm] using h.active
      · exact h.limit
      · exact nofun
      · intro htracks ip
        simpa [admittedFrom, hp, admits, countsTracker, List.countP_cons, Nat.add_comm] using h.tracked htracks ip
      · exact h.ipLimit
  | undo c outcome connections hp =>
      have hleave := leave_activeConnections s.server
      constructor
      · have hactive := h.active
        simp only [countedIn, hp, inside, if_true] at hactive
        simp [countedIn, inside, hleave, hactive]
      · exact fun hpos => hleave.trans_le ((Nat.sub_le _ _).trans (h.limit hpos))
      · exact nofun
      · intro htracks ip
        have htracked := h.tracked htracks ip
        rwa [admittedFrom, hp] at htracked
      · exact h.ipLimit
  | untrack c outcome hp =>
      constructor
      · have hactive := h.active
        rwa [countedIn, hp] at hactive
      · exact h.limit
      · exact nofun
      · intro htracks ip
        have htracked := h.tracked htracks ip
        simp only [admittedFrom, hp, admits, Option.some.injEq] at htracked
        simp only [admittedFrom, admits, reduceCtorEq, if_false, trackedCount_decrement, htracked, eq_comm]
        omega
      · intro hpos ip
        rw [trackedCount_decrement]
        exact (Nat.sub_le _ _).trans (h.ipLimit hpos ip)

theorem countedIn_set {k : Nat} {w : Worker} (hk : s.workers[k]? = some w) (w' : Worker) (server : Server) :
    countedIn { s with server, workers := s.workers.set k w' } + (if countsActive w.phase then 1 else 0) =
      countedIn s + if countsActive w'.phase then 1 else 0 := by
  have hset := countP_set_add (P := fun w : Worker => countsActive w.phase) (q := w') hk
  simp only [countedIn]
  omega

theorem admittedFrom_set {k : Nat} {w : Worker} (hk : s.workers[k]? = some w) (w' : Worker) (server : Server)
    (ip : RemoteIp) :
    admittedFrom { s with server, workers := s.workers.set k w' } ip +
        (if countsTracker w.phase && w.conn.ip = ip then 1 else 0) =
      admittedFrom s ip + if countsTracker w'.phase && w'.conn.ip = ip then 1 else 0 := by
  have hset := countP_set_add (P := fun w : Worker => countsTracker w.phase && w.conn.ip = ip) (q := w') hk
  simp only [admittedFrom]
  omega

theorem AccountOk.worker {k : Nat} {w w' : Worker} {server : Server} (h : AccountOk cfg s) (hk : s.workers[k]? = some w)
    (hw : workerStep s.server w = some (w', server, events)) :
    AccountOk cfg { s with server, workers := s.workers.set k w' } := by
  have hcounted := countedIn_set hk w' server
  have htracked := admittedFrom_set hk w' server
  obtain ⟨conn, phase⟩ := w
  cases phase with
  | handle =>
      cases hw
      refine ⟨?_, h.limit, h.room, fun htracks ip => ?_, h.ipLimit⟩
      · exact h.active.trans (Nat.add_right_cancel hcounted).symm
      · exact (h.tracked htracks ip).trans (Nat.add_right_cancel (htracked ip)).symm
  | untrack =>
      cases hw
      refine ⟨?_, h.limit, h.room, fun htracks ip => ?_, fun hpos ip => ?_⟩
      · exact h.active.trans (Nat.add_right_cancel hcounted).symm
      · have hip := htracked ip
        simp only [countsTracker, Bool.true_and, Bool.false_and, decide_eq_true_eq, Bool.false_eq_true, if_false,
          Nat.add_zero, eq_comm (a := conn.ip)] at hip
        rw [trackedCount_decrement, h.tracked htracks ip, ← hip]
        exact Nat.add_sub_cancel _ _
      · rw [trackedCount_decrement]
        exact (Nat.sub_le _ _).trans (h.ipLimit hpos ip)
  | leave =>
      cases hw
      have hleave := leave_activeConnections s.server
      refine ⟨?_, fun hpos => ?_, fun hpos hgap => ?_, fun htracks ip => ?_, h.ipLimit⟩
      · simp only [countsActive, if_true, Bool.false_eq_true, if_false, Nat.add_zero] at hcounted
        rw [hleave, h.active, ← hcounted]
        rfl
      · exact hleave.trans_le ((Nat.sub_le _ _).trans (h.limit hpos))
      · exact hleave.trans_lt ((Nat.sub_le _ _).trans_lt (h.room hpos hgap))
      · exact (h.tracked htracks ip).trans (Nat.add_right_cancel (htracked ip)).symm
  | done => cases hw

theorem AccountOk.step (h : AccountOk cfg s) (hs : guarded TrackersAllocated (Step cfg) s events s') :
    AccountOk cfg s' := by
  obtain ⟨hstep, halloc⟩ := hs
  cases hstep with
  | start hexited hidle =>
      refine ⟨?_, h.limit, nofun, fun htracks ip => ?_, h.ipLimit⟩
      · have hactive := h.active
        rwa [countedIn, hexited] at hactive
      · have htracked := h.tracked htracks ip
        rwa [admittedFrom, hexited] at htracked
  | stop hrunning => exact ⟨h.active, h.limit, h.room, h.tracked, h.ipLimit⟩
  | drain hexited => exact ⟨h.active, h.limit, h.room, h.tracked, h.ipLimit⟩
  | accept _ reply _ ha => exact h.accept (acceptStep_effect ha halloc)
  | worker k w w' server _ hk hw => exact h.worker hk hw

end Steps

/-- The counters of the server and of its trackers are the numbers of the connections
that are open, and the limits are kept. -/
theorem connection_accounting {cfg : Config} {trace : List ServerEvent} {s : System}
    (hrun : Run (guarded TrackersAllocated (Step cfg)) akTcpServerNew trace s) :
    s.server.activeConnections = countedIn s ∧
      (0 < cfg.maxConnections → s.server.activeConnections ≤ cfg.maxConnections) ∧
      ((0 < cfg.maxConnectionsPerIp ∨ 0 < cfg.connectionRateLimit) → ∀ ip,
        trackedCount s.server.ipTrackers ip = admittedFrom s ip ∧
          (0 < cfg.maxConnectionsPerIp → trackedCount s.server.ipTrackers ip ≤ cfg.maxConnectionsPerIp)) := by
  have hok : AccountOk cfg s := by
    apply hrun.invariant (P := fun _ s => AccountOk cfg s)
    · exact ⟨rfl, fun _ => Nat.zero_le _, nofun, fun _ _ => rfl, fun _ _ => Nat.zero_le _⟩
    · exact fun trace s events s' h hs => h.step hs
  refine ⟨hok.active, hok.limit, fun hconfig ip => ⟨hok.tracked ?_ ip, fun hpos => hok.ipLimit hpos ip⟩⟩
  simpa [tracks] using hconfig

/-- A first connection takes the only place, in all and of its address. -/
theorem first_connection_accounting :
    ∃ trace s, Run (guarded TrackersAllocated (Step ⟨1, 1, 0, true, false⟩)) akTcpServerNew trace s ∧
      s.server.activeConnections = 1 ∧ countedIn s = 1 ∧ s.workers.length = 1 := by
  let reply : AcceptReply := ⟨.ready, some ⟨[49], by decide⟩, true, 0, true, true, true, true, true, true⟩
  have r₁ : Run (guarded TrackersAllocated (Step ⟨1, 1, 0, true, false⟩)) akTcpServerNew _ _ :=
    .next .start ⟨.start _ rfl rfl, nofun⟩
  have r₂ := r₁.next ⟨.accept _ _ reply _ rfl, nofun⟩
  have r₃ := r₂.next ⟨.accept _ _ reply _ rfl, nofun⟩
  have r₄ := r₃.next ⟨.accept _ _ reply _ rfl, by simp [TrackersAllocated]⟩
  have r₅ := r₄.next ⟨.accept _ _ reply _ rfl, nofun⟩
  have r₆ := r₅.next ⟨.accept _ _ reply _ rfl, nofun⟩
  have r₇ := r₆.next ⟨.accept _ _ reply _ rfl, nofun⟩
  have r₈ := r₇.next ⟨.accept _ _ reply _ rfl, nofun⟩
  have r₉ := r₈.next ⟨.accept _ _ reply _ rfl, by simp [TrackersAllocated]⟩
  have r₁₀ := r₉.next ⟨.accept _ _ reply _ rfl, nofun⟩
  have r₁₁ := r₁₀.next ⟨.accept _ _ reply _ rfl, nofun⟩
  have r₁₂ := r₁₁.next ⟨.accept _ _ reply _ rfl, by simp [TrackersAllocated]⟩
  exact ⟨_, _, r₁₂, rfl, (connection_accounting r₁₂).1.symm, rfl⟩

end Ak24.TcpServerAccounting
