import Ak24.TcpCalls

namespace Ak24.TcpPeerClose

open TcpModel hiding akTcpIsAlive akTcpRecvUntil
open TcpCalls Transition

/-- A context with any number of callers, and what has become of the connection:
whether the peer has closed its side, and whether it was closed here. -/
structure World (ι : Type) where
  conn : Conn
  calls : ι → Option (CallPhase × CallPhase)
  peerGone : Bool
  closedHere : Bool

variable {ι : Type}

def World.ended (w : World ι) : Prop := w.peerGone = true ∨ w.closedHere = true

def receives : CallPhase → Option Nat
  | .receiving _ _ toRecv | .untilReceiving _ _ toRecv _ _ _ => some toRecv
  | _ => none

def sends : CallPhase → Bool
  | .sending _ _ toSend sent => sent < toSend
  | _ => false

/-- What the socket layer promises of its answers to the next step of a call: of a
receive or a send that asks for at least one byte, zero bytes only at the end, and
of the poll, the end of the stream only then. -/
structure Answers (w : World ι) (p : CallPhase) (reply : Reply) (poll : Poll) : Prop where
  received : ∀ n, receives p = some n → 0 < n → reply.received = some [] → w.ended
  sent : sends p = true → reply.sent = some 0 → w.ended
  polled : reply.peerClosed = akTcpSocketPeerClosed poll
  sees : poll.seesEnd = true → w.ended

inductive Act
  | began (p : CallPhase)
  | polled (poll : Poll)
  deriving DecidableEq, Repr

def polls (p : CallPhase) (poll : Poll) : List Act :=
  match p with
  | .untilAlive .. => [.polled poll]
  | _ => []

/-- Every order of the callers' steps, of the calls that close the connection and
of the peer's close. -/
inductive Step [DecidableEq ι] : World ι → List Act → World ι → Prop
  | peerCloses (w : World ι) : Step w [] { w with peerGone := true }
  | begin (w : World ι) (i : ι) (p : CallPhase) (hidle : w.calls i = none) (hp : begins p) :
    Step w [.began p] { w with calls := Function.update w.calls i (some (p, p)) }
  | call (w : World ι) (i : ι) (p₀ p p' : CallPhase) (reply : Reply) (poll : Poll) (conn : Conn) (events : List Event)
    (hp : w.calls i = some (p₀, p)) (ha : Answers w p reply poll)
    (h : callStep w.conn reply p = some (p', conn, events)) :
    Step w (polls p poll) { w with conn, calls := Function.update w.calls i (some (p₀, p')) }
  | done (w : World ι) (i : ι) (p₀ : CallPhase) (r : Returned) (hr : w.calls i = some (p₀, .returned r)) :
    Step w [] { w with calls := Function.update w.calls i none }
  | isAlive (w : World ι) (poll : Poll) (hsees : poll.seesEnd = true → w.ended) :
    Step w [.polled poll] { w with conn := (akTcpIsAlive w.conn (akTcpSocketPeerClosed poll)).2.1 }
  | close (w : World ι) : Step w [] { w with conn := (akTcpClose w.conn).1, closedHere := true }
  | kill (w : World ι) : Step w [] { w with conn := (akTcpKill w.conn).1, closedHere := true }
  | abort (w : World ι) : Step w [] { w with conn := (akTcpAbort w.conn).1, closedHere := true }
  | shutdown (w : World ι) : Step w [] { w with conn := (akTcpShutdown w.conn).1, closedHere := true }

def World.start (ι : Type) (fd : Nat) (ssl : Option Nat) (maxRecvBufferBytes : Nat) : World ι :=
  ⟨⟨true, some fd, ssl, maxRecvBufferBytes, 0⟩, fun _ => none, false, false⟩

/-- No receive is called for zero bytes, and no poll fails. -/
def Fair : Act → Prop
  | .began p => p ≠ .recv 0
  | .polled poll => poll.fails = false

def PhaseOk (ended : Prop) (p₀ : CallPhase) : CallPhase → Prop
  | .send _ | .sendSsl .. | .sending .. => ∃ n, p₀ = .send n
  | .recv maxBytes => 0 < maxBytes
  | .recvSsl _ toRecv => 0 < toRecv
  | .receiving _ _ toRecv => 0 < toRecv
  | .recvCount received => 0 < received
  | .untilReceiving _ _ toRecv _ _ _ => 0 < toRecv
  | .sendClosed | .recvClosed | .untilClosed _ => ended
  | .returned r => r = .count 0 none → (∃ n, p₀ = .send n) ∨ ended
  | _ => True

theorem PhaseOk.mono {ended ended' : Prop} {p₀ p : CallPhase} (h : PhaseOk ended p₀ p) (he : ended → ended') :
    PhaseOk ended' p₀ p := by
  cases p with
  | sendClosed | recvClosed | untilClosed => exact he h
  | returned r => exact fun hr => (h hr).imp id he
  | _ => exact h

section Steps

variable {c c' : Conn} {reply : Reply} {p₀ p p' : CallPhase} {events : List Event} {ended : Prop}

theorem phaseOk_refuse (n : Int) (error : String) : PhaseOk ended p₀ (refuse n error) := by
  simp [refuse, PhaseOk]

structure StepOk (ended : Prop) (c : Conn) (p₀ : CallPhase) (c' : Conn) (p' : CallPhase) : Prop where
  alive : c'.alive = false → c.alive = false ∨ ended
  phase : PhaseOk ended p₀ p'

theorem StepOk.same (h : PhaseOk ended p₀ p') : StepOk ended c p₀ c p' := ⟨Or.inl, h⟩

theorem akTcpSend_sound (hp : PhaseOk ended p₀ p) (hsent : sends p = true → reply.sent = some 0 → ended)
    (h : akTcpSend c reply p = some (p', c', events)) : StepOk ended c p₀ c' p' := by
  cases p with
  | send toSend =>
      simp only [akTcpSend] at h
      split_ifs at h
      · cases h
        exact .same (phaseOk_refuse _ _)
      · cases h
        exact .same hp
  | sendSsl fd toSend =>
      cases h
      exact .same hp
  | sending fd ssl toSend sent =>
      simp only [akTcpSend] at h
      split_ifs at h with hlt
      · split at h
        · cases h
          exact .same (phaseOk_refuse _ _)
        · next hzero =>
            cases h
            exact .same (hsent (by simpa [sends] using hlt) hzero)
        · cases h
          exact .same hp
      · cases h
        exact .same fun _ => Or.inl hp
  | sendClosed =>
      cases h
      exact ⟨fun _ => Or.inr hp, phaseOk_refuse _ _⟩
  | recv | recvSsl | receiving | recvClosed | recvCount | recvUntil | untilAlive | untilCopy | untilReceiving | untilClosed
    | untilCount | returned => cases h

theorem recvSize_pos {maxBytes : Nat} (hm : 0 < maxBytes)
    (hroom : ¬ (0 < c.maxRecvBufferBytes ∧ c.maxRecvBufferBytes ≤ c.bufferedBytes)) : 0 < recvSize c maxBytes := by
  rw [recvSize]
  split_ifs <;> simp only [tcpRecvChunkSize] at * <;> omega

theorem received_nil {data : List UInt8} {n : Nat} (hn : 0 < n) (h : (data.take n).length = 0) : data = [] := by
  rw [List.length_take] at h
  exact List.length_eq_zero_iff.mp (by omega)

theorem akTcpRecv_sound (hp : PhaseOk ended p₀ p)
    (hreceived : ∀ n, receives p = some n → 0 < n → reply.received = some [] → ended)
    (h : akTcpRecv c reply p = some (p', c', events)) : StepOk ended c p₀ c' p' := by
  cases p with
  | recv maxBytes =>
      simp only [akTcpRecv] at h
      split_ifs at h with halive hfull
      · cases h
        exact .same (phaseOk_refuse _ _)
      · cases h
        exact .same (phaseOk_refuse _ _)
      · cases h
        exact .same (recvSize_pos hp hfull)
  | recvSsl fd toRecv =>
      cases h
      exact .same hp
  | receiving fd ssl toRecv =>
      simp only [akTcpRecv] at h
      split at h
      · cases h
        exact .same (phaseOk_refuse _ _)
      · next data hdata =>
          split_ifs at h with hz
          · cases h
            exact .same (hreceived toRecv rfl hp (received_nil hp hz ▸ hdata))
          · cases h
            exact .same (Nat.pos_of_ne_zero hz)
          · cases h
            exact .same (phaseOk_refuse _ _)
  | recvClosed =>
      cases h
      exact ⟨fun _ => Or.inr hp, fun _ => Or.inr hp⟩
  | recvCount received =>
      cases h
      refine ⟨Or.inl, fun hr => absurd hp ?_⟩
      simp only [Returned.count.injEq, Int.natCast_eq_zero] at hr
      rw [hr.1]
      exact Nat.lt_irrefl 0
  | send | sendSsl | sending | sendClosed | recvUntil | untilAlive | untilCopy | untilReceiving | untilClosed | untilCount
    | returned => cases h

theorem isAlive_sound {peerClosed : Bool} (h : peerClosed = true → ended) :
    (akTcpIsAlive c peerClosed).2.1.alive = false → c.alive = false ∨ ended := by
  rw [akTcpIsAlive]
  split
  · split_ifs with hc
    · exact fun _ => Or.inr (h hc)
    · exact Or.inl
  · exact Or.inl

theorem phaseOk_buffer (result : Outcome) : PhaseOk ended p₀ (.returned (.buffer result)) :=
  fun hr => absurd hr (by simp)

theorem akTcpRecvUntil_sound (hp : PhaseOk ended p₀ p)
    (hreceived : ∀ n, receives p = some n → 0 < n → reply.received = some [] → ended)
    (hclosed : ∀ delim maxBytes result, p = .untilAlive delim maxBytes result → reply.peerClosed = true → ended)
    (h : akTcpRecvUntil c reply p = some (p', c', events)) : StepOk ended c p₀ c' p' := by
  cases p with
  | recvUntil delim maxBytes =>
      simp only [akTcpRecvUntil] at h
      split_ifs at h
      · cases h
        exact .same (phaseOk_buffer _)
      · cases h
        exact .same (phaseOk_buffer _)
      · cases h
        exact .same trivial
  | untilAlive delim maxBytes result =>
      have halive := isAlive_sound (c := c) (hclosed delim maxBytes result rfl)
      simp only [akTcpRecvUntil] at h
      split at h
      · cases h
        exact ⟨halive, phaseOk_buffer _⟩
      · split at h
        · cases h
          exact ⟨halive, phaseOk_buffer _⟩
        · split at h
          · cases h
            exact ⟨halive, phaseOk_buffer _⟩
          · cases h
            exact ⟨halive, trivial⟩
  | untilCopy delim maxBytes result =>
      simp only [akTcpRecvUntil] at h
      split_ifs at h with _ hfull
      · cases h
        exact .same (phaseOk_buffer _)
      · cases h
        exact .same (phaseOk_buffer _)
      · cases h
        exact .same (toRead_pos hfull)
  | untilReceiving fd ssl toRecv delim maxBytes result =>
      simp only [akTcpRecvUntil] at h
      split at h
      · cases h
        exact .same (phaseOk_buffer _)
      · next data hdata =>
          split_ifs at h with hz
          · cases h
            exact .same (hreceived toRecv rfl hp (received_nil hp hz ▸ hdata))
          · cases h
            exact .same trivial
          · cases h
            exact .same (phaseOk_buffer _)
  | untilClosed result =>
      cases h
      exact ⟨fun _ => Or.inr hp, phaseOk_buffer _⟩
  | untilCount received delim maxBytes result =>
      cases h
      exact ⟨Or.inl, trivial⟩
  | send | sendSsl | sending | sendClosed | recv | recvSsl | receiving | recvClosed | recvCount | returned => cases h

theorem callStep_sound (hp : PhaseOk ended p₀ p)
    (hreceived : ∀ n, receives p = some n → 0 < n → reply.received = some [] → ended)
    (hsent : sends p = true → reply.sent = some 0 → ended)
    (hclosed : ∀ delim maxBytes result, p = .untilAlive delim maxBytes result → reply.peerClosed = true → ended)
    (h : callStep c reply p = some (p', c', events)) : StepOk ended c p₀ c' p' := by
  cases p with
  | send | sendSsl | sending | sendClosed =>
      simp only [callStep] at h
      exact akTcpSend_sound hp hsent h
  | recv | recvSsl | receiving | recvClosed | recvCount =>
      simp only [callStep] at h
      exact akTcpRecv_sound hp hreceived h
  | recvUntil | untilAlive | untilCopy | untilReceiving | untilClosed | untilCount =>
      simp only [callStep] at h
      exact akTcpRecvUntil_sound hp hreceived hclosed h
  | returned => cases h

end Steps

section Runs

structure Inv (w : World ι) : Prop where
  alive : w.conn.alive = false → w.ended
  phase : ∀ i p₀ p, w.calls i = some (p₀, p) → PhaseOk w.ended p₀ p

theorem phaseOk_begin {ended : Prop} {p : CallPhase} (hp : begins p = true) (hfair : p ≠ .recv 0) :
    PhaseOk ended p p := by
  cases p with
  | send toSend => exact ⟨toSend, rfl⟩
  | recv maxBytes => exact Nat.pos_of_ne_zero fun hz => hfair (by rw [hz])
  | recvUntil delim maxBytes => trivial
  | sendSsl | sending | sendClosed | recvSsl | receiving | recvClosed | recvCount | untilAlive | untilCopy
    | untilReceiving | untilClosed | untilCount | returned => cases hp

/-- What a poll that does not fail reports is the end. -/
theorem ended_of_peerClosed {w : World ι} {poll : Poll} (hfair : poll.fails = false)
    (hsees : poll.seesEnd = true → w.ended) (h : akTcpSocketPeerClosed poll = true) : w.ended := by
  rcases peerClosed_cases h with hf | hs
  · rw [hfair] at hf
    exact absurd hf (by simp)
  · exact hsees hs

theorem Inv.of_closed {w : World ι} (h : Inv w) (conn : Conn) : Inv { w with conn, closedHere := true } :=
  ⟨fun _ => Or.inr rfl, fun i p₀ p hp => (h.phase i p₀ p hp).mono fun _ => Or.inr rfl⟩

variable [DecidableEq ι]

theorem phaseOk_update {w : World ι} {i : ι} {ended : Prop} {c : Option (CallPhase × CallPhase)}
    (h : ∀ j p₀ p, w.calls j = some (p₀, p) → PhaseOk ended p₀ p) (hc : ∀ p₀ p, c = some (p₀, p) → PhaseOk ended p₀ p)
    (j : ι) (p₀ p : CallPhase) (hj : Function.update w.calls i c j = some (p₀, p)) : PhaseOk ended p₀ p := by
  by_cases hij : j = i
  · subst hij
    rw [Function.update_self] at hj
    exact hc p₀ p hj
  · rw [Function.update_of_ne hij] at hj
    exact h j p₀ p hj

theorem Inv.step {w w' : World ι} {acts : List Act} (h : Inv w) (hs : Step w acts w') (hfair : ∀ a ∈ acts, Fair a) :
    Inv w' := by
  cases hs with
  | peerCloses =>
      exact ⟨fun _ => Or.inl rfl, fun i p₀ p hp => (h.phase i p₀ p hp).mono fun _ => Or.inl rfl⟩
  | begin i p hidle hp =>
      refine ⟨h.alive, phaseOk_update h.phase fun p₀ p' hc => ?_⟩
      obtain ⟨rfl, rfl⟩ : p = p₀ ∧ p = p' := by simpa using hc
      exact phaseOk_begin hp (hfair _ List.mem_cons_self)
  | call i p₀ p p' reply poll conn events hp ha hcall =>
      have hclosed (delim : List UInt8) (maxBytes : Nat) (result : List UInt8)
          (hpoll : p = .untilAlive delim maxBytes result) (hc : reply.peerClosed = true) : w.ended := by
        subst hpoll
        exact ended_of_peerClosed (hfair _ List.mem_cons_self) ha.sees (ha.polled ▸ hc)
      have hok := callStep_sound (h.phase i p₀ p hp) ha.received ha.sent hclosed hcall
      refine ⟨fun hdead => (hok.alive hdead).elim h.alive id, phaseOk_update h.phase fun q₀ q hc => ?_⟩
      obtain ⟨rfl, rfl⟩ : p₀ = q₀ ∧ p' = q := by simpa using hc
      exact hok.phase
  | done i p₀ r hr =>
      refine ⟨h.alive, phaseOk_update h.phase fun q₀ q hc => ?_⟩
      exact absurd hc (by simp)
  | isAlive poll hsees =>
      refine ⟨fun hdead => ?_, h.phase⟩
      have hended := ended_of_peerClosed (hfair _ List.mem_cons_self) hsees
      exact (isAlive_sound hended hdead).elim h.alive id
  | close => exact h.of_closed _
  | kill => exact h.of_closed _
  | abort => exact h.of_closed _
  | shutdown => exact h.of_closed _

/-- In every run without a receive for zero bytes and without a failing poll, a
context is dead, and a receive returns zero, only after the peer has closed its side
or the connection was closed here. -/
theorem alive_flag_sound (fd : Nat) (ssl : Option Nat) (limit : Nat) (trace : List Act) (w : World ι)
    (h : Run Step (World.start ι fd ssl limit) trace w) (hfair : ∀ a ∈ trace, Fair a) :
    (w.conn.alive = false → w.peerGone = true ∨ w.closedHere = true) ∧
      ∀ i maxBytes, w.calls i = some (.recv maxBytes, .returned (.count 0 none)) →
        w.peerGone = true ∨ w.closedHere = true := by
  have hinv : (∀ a ∈ trace, Fair a) → Inv w := by
    refine h.invariant (P := fun trace w => (∀ a ∈ trace, Fair a) → Inv w)
      (fun _ => ⟨fun hdead => ?_, fun i p₀ p hp => ?_⟩) fun trace w acts w' hi hs hfair => ?_
    · exact absurd hdead (by simp [World.start])
    · exact absurd hp (by simp [World.start])
    · rw [List.forall_mem_append] at hfair
      exact (hi hfair.1).step hs hfair.2
  refine ⟨(hinv hfair).alive, fun i maxBytes hcall => ?_⟩
  rcases (hinv hfair).phase i _ _ hcall rfl with ⟨n, hn⟩ | hended
  · exact absurd hn (by simp)
  · exact hended

end Runs

theorem answers_idle {w : World ι} {p : CallPhase} {received : Option (List UInt8)}
    (h : ∀ n, receives p = some n → 0 < n → received = some [] → w.ended) :
    Answers w p ⟨none, received, "", false, true⟩ .idle :=
  ⟨h, fun _ hs => absurd hs (by simp), rfl, fun hs => absurd hs (by simp [Poll.seesEnd])⟩

/-- The peer closes and a receive finds the end of the stream. -/
theorem alive_flag_sound_eof :
    ∃ trace w, Run Step (World.start Unit 3 none 0) trace w ∧ w.conn.alive = false ∧ w.closedHere = false ∧
      (w.peerGone = true ∨ w.closedHere = true) := by
  have hstart : Run Step (World.start Unit 3 none 0) [] (World.start Unit 3 none 0) := .start
  have hpeer := hstart.next (.peerCloses _)
  have hbegin := hpeer.next (.begin _ () (.recv 8) rfl rfl)
  have hsize := hbegin.next (.call _ () (.recv 8) (.recv 8) _ ⟨none, none, "", false, true⟩ .idle _ _ rfl
    (answers_idle fun _ _ _ _ => Or.inl rfl) rfl)
  have hssl := hsize.next (.call _ () (.recv 8) _ _ ⟨none, none, "", false, true⟩ .idle _ _ rfl
    (answers_idle fun _ _ _ _ => Or.inl rfl) rfl)
  have hrecv := hssl.next (.call _ () (.recv 8) _ _ ⟨none, some [], "", false, true⟩ .idle _ _ rfl
    (answers_idle fun _ _ _ _ => Or.inl rfl) rfl)
  have hclosed := hrecv.next (.call _ () (.recv 8) _ _ ⟨none, none, "", false, true⟩ .idle _ _ rfl
    (answers_idle fun _ _ _ _ => Or.inl rfl) rfl)
  exact ⟨_, _, hclosed, rfl, rfl, (alive_flag_sound 3 none 0 _ _ hclosed (by simp [polls, Fair])).1 rfl⟩

/-- A receive for zero bytes kills an open connection and returns what means that
the peer has closed. -/
theorem recv_zero_kills_open :
    ∃ trace w, Run Step (World.start Unit 3 none 0) trace w ∧ w.conn.alive = false ∧
      w.calls () = some (.recv 0, .returned (.count 0 none)) ∧ w.peerGone = false ∧ w.closedHere = false := by
  have hnone {w : World Unit} {p : CallPhase} (h : receives p = none ∨ receives p = some 0)
      (received : Option (List UInt8)) : Answers w p ⟨none, received, "", false, true⟩ .idle := by
    refine answers_idle fun n hn hpos _ => ?_
    rcases h with h | h
    · rw [h] at hn
      exact absurd hn (by simp)
    · rw [h] at hn
      obtain rfl : 0 = n := Option.some.inj hn
      exact absurd hpos (Nat.lt_irrefl 0)
  have hstart : Run Step (World.start Unit 3 none 0) [] (World.start Unit 3 none 0) := .start
  have hbegin := hstart.next (.begin _ () (.recv 0) rfl rfl)
  have hsize := hbegin.next (.call _ () (.recv 0) (.recv 0) _ ⟨none, none, "", false, true⟩ .idle _ _ rfl
    (hnone (Or.inl rfl) _) rfl)
  have hssl := hsize.next (.call _ () (.recv 0) _ _ ⟨none, none, "", false, true⟩ .idle _ _ rfl
    (hnone (Or.inl rfl) _) rfl)
  have hrecv := hssl.next (.call _ () (.recv 0) _ _ ⟨none, some [97], "", false, true⟩ .idle _ _ rfl
    (hnone (Or.inr rfl) _) rfl)
  have hclosed := hrecv.next (.call _ () (.recv 0) _ _ ⟨none, none, "", false, true⟩ .idle _ _ rfl
    (hnone (Or.inl rfl) _) rfl)
  exact ⟨_, _, hclosed, rfl, rfl, rfl, rfl⟩

end Ak24.TcpPeerClose
