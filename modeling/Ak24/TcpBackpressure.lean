import Ak24.TcpCalls

namespace Ak24.TcpBackpressure

open TcpModel hiding akTcpIsAlive akTcpRecvUntil
open TcpCalls Transition

/-- A call with the way it began, on a context that has one caller. -/
structure Caller where
  conn : Conn
  call : Option (CallPhase × CallPhase)

/-- A receive with the number of bytes asked for, and an unsigned subtraction. -/
inductive Use
  | asked (n : Nat)
  | subtracted (a b : Nat)
  deriving DecidableEq, Repr

/-- The chunk on the stack holds what is asked for; the subtraction does not wrap. -/
def Use.Sound : Use → Prop
  | .asked n => n ≤ tcpRecvChunkSize
  | .subtracted a b => b ≤ a

/-- The receive that the next step of a call issues, and the subtractions that it
evaluates. -/
def uses (c : Conn) : CallPhase → List Use
  | .recv _ =>
    if c.alive ∧ 0 < c.maxRecvBufferBytes ∧ ¬ c.maxRecvBufferBytes ≤ c.bufferedBytes then
      [.subtracted c.maxRecvBufferBytes c.bufferedBytes]
    else []
  | .receiving _ _ toRecv => [.asked toRecv]
  | .untilAlive delim _ result =>
    if delim.length ≤ result.length then [.subtracted result.length delim.length] else []
  | .untilCopy _ maxBytes result =>
    if c.alive ∧ ¬ (0 < c.maxRecvBufferBytes ∧ c.maxRecvBufferBytes ≤ c.bufferedBytes) then
      (if 0 < maxBytes ∧ maxBytes < result.length + tcpRecvChunkSize then
        [.subtracted maxBytes result.length] else []) ++
      (if 0 < c.maxRecvBufferBytes then [.subtracted c.maxRecvBufferBytes c.bufferedBytes] else [])
    else []
  | .untilReceiving _ _ toRecv _ _ _ => [.asked toRecv]
  | .sending _ _ toSend sent => if sent < toSend then [.subtracted toSend sent] else []
  | _ => []

def consumeUses (c : Conn) (bytes : Nat) : List Use :=
  if c.bufferedBytes < bytes then [] else [.subtracted c.bufferedBytes bytes]

/-- The calls of one thread, one after the other; the transport answers a receive
with any number of bytes up to what is asked for. -/
inductive Step : Caller → List Use → Caller → Prop
  | begin (s : Caller) (p : CallPhase) (hidle : s.call = none) (hp : begins p) :
    Step s [] { s with call := some (p, p) }
  | call (s : Caller) (p₀ p p' : CallPhase) (reply : Reply) (conn : Conn) (events : List Event)
    (hp : s.call = some (p₀, p)) (h : callStep s.conn reply p = some (p', conn, events)) :
    Step s (uses s.conn p) ⟨conn, some (p₀, p')⟩
  | done (s : Caller) (p₀ : CallPhase) (r : Returned) (hr : s.call = some (p₀, .returned r)) :
    Step s [] { s with call := none }
  | consume (s : Caller) (bytes : Nat) (hidle : s.call = none) :
    Step s (consumeUses s.conn bytes) { s with conn := akTcpConsumeBytes s.conn bytes }

def Caller.start (fd : Nat) (ssl : Option Nat) (maxRecvBufferBytes : Nat) : Caller :=
  ⟨⟨true, some fd, ssl, maxRecvBufferBytes, 0⟩, none⟩

def Capped (p₀ : CallPhase) (n : Nat) : Prop :=
  ∀ delim maxBytes, p₀ = .recvUntil delim maxBytes → 0 < maxBytes → n ≤ maxBytes

def PhaseOk (c : Conn) (p₀ : CallPhase) : CallPhase → Prop
  | .recvSsl _ toRecv => toRecv ≤ tcpRecvChunkSize ∧ c.bufferedBytes + toRecv ≤ c.maxRecvBufferBytes
  | .receiving _ _ toRecv => toRecv ≤ tcpRecvChunkSize ∧ c.bufferedBytes + toRecv ≤ c.maxRecvBufferBytes
  | .recvCount received => c.bufferedBytes + received ≤ c.maxRecvBufferBytes
  | .recvUntil delim maxBytes => p₀ = .recvUntil delim maxBytes
  | .untilAlive delim maxBytes result =>
    p₀ = .recvUntil delim maxBytes ∧ (0 < maxBytes → result.length ≤ maxBytes)
  | .untilCopy delim maxBytes result =>
    p₀ = .recvUntil delim maxBytes ∧ (0 < maxBytes → result.length < maxBytes)
  | .untilReceiving _ _ toRecv delim maxBytes result =>
    p₀ = .recvUntil delim maxBytes ∧ toRecv ≤ tcpRecvChunkSize ∧ c.bufferedBytes + toRecv ≤ c.maxRecvBufferBytes ∧
      (0 < maxBytes → result.length + toRecv ≤ maxBytes)
  | .untilClosed result => Capped p₀ result.length
  | .untilCount received delim maxBytes result =>
    p₀ = .recvUntil delim maxBytes ∧ c.bufferedBytes + received ≤ c.maxRecvBufferBytes ∧
      (0 < maxBytes → result.length ≤ maxBytes)
  | .returned (.buffer (.buffer out)) => Capped p₀ out.length
  | _ => True

structure Within (c : Conn) : Prop where
  limited : 0 < c.maxRecvBufferBytes
  bounded : c.bufferedBytes ≤ c.maxRecvBufferBytes

section Steps

variable {c c' : Conn} {reply : Reply} {p₀ p p' : CallPhase} {events : List Event}

structure StepOk (c : Conn) (p₀ p : CallPhase) (c' : Conn) (p' : CallPhase) : Prop where
  limit : c'.maxRecvBufferBytes = c.maxRecvBufferBytes
  bounded : c'.bufferedBytes ≤ c'.maxRecvBufferBytes
  phase : PhaseOk c' p₀ p'
  sound : ∀ u ∈ uses c p, u.Sound

theorem recvSize_le (c : Conn) (maxBytes : Nat) : recvSize c maxBytes ≤ tcpRecvChunkSize := by
  rw [recvSize]
  split_ifs <;> omega

theorem recvSize_budget (h : Within c) (maxBytes : Nat) :
    c.bufferedBytes + recvSize c maxBytes ≤ c.maxRecvBufferBytes := by
  have := h.bounded
  have := h.limited
  rw [recvSize]
  split_ifs <;> omega

theorem toRead_ok {maxBytes count : Nat} (h : Within c) (hm : 0 < maxBytes → count < maxBytes) :
    toRead maxBytes c.maxRecvBufferBytes c.bufferedBytes count ≤ tcpRecvChunkSize ∧
      c.bufferedBytes + toRead maxBytes c.maxRecvBufferBytes c.bufferedBytes count ≤ c.maxRecvBufferBytes ∧
      (0 < maxBytes → count + toRead maxBytes c.maxRecvBufferBytes c.bufferedBytes count ≤ maxBytes) := by
  have := h.bounded
  have := h.limited
  rw [toRead]
  split_ifs <;> simp only [tcpRecvChunkSize] at * <;> omega

theorem phaseOk_finish {result : List UInt8} (h : Capped p₀ result.length) : PhaseOk c p₀ (finishUntil result) := by
  rw [finishUntil, finishRecv]
  split_ifs
  · trivial
  · exact h

theorem akTcpSend_within (h : Within c) (hcall : akTcpSend c reply p = some (p', c', events)) :
    StepOk c p₀ p c' p' := by
  cases p with
  | send toSend =>
      simp only [akTcpSend] at hcall
      split_ifs at hcall
      all_goals
        cases hcall
        exact ⟨rfl, h.bounded, trivial, by simp [uses]⟩
  | sendSsl fd toSend =>
      cases hcall
      exact ⟨rfl, h.bounded, trivial, by simp [uses]⟩
  | sending fd ssl toSend sent =>
      have hsound : ∀ u ∈ uses c (.sending fd ssl toSend sent), u.Sound := by
        intro u hu
        rw [uses] at hu
        split_ifs at hu with hlt
        · rw [List.mem_singleton.mp hu]
          exact hlt.le
        · exact absurd hu List.not_mem_nil
      simp only [akTcpSend] at hcall
      split_ifs at hcall
      · split at hcall
        all_goals
          cases hcall
          exact ⟨rfl, h.bounded, trivial, hsound⟩
      · cases hcall
        exact ⟨rfl, h.bounded, trivial, hsound⟩
  | sendClosed =>
      cases hcall
      exact ⟨rfl, h.bounded, trivial, by simp [uses]⟩
  | recv | recvSsl | receiving | recvClosed | recvCount | recvUntil | untilAlive | untilCopy | untilReceiving | untilClosed
    | untilCount | returned => cases hcall

theorem akTcpRecv_within (h : Within c) (hp : PhaseOk c p₀ p) (hcall : akTcpRecv c reply p = some (p', c', events)) :
    StepOk c p₀ p c' p' := by
  cases p with
  | recv maxBytes =>
      have hsound : ∀ u ∈ uses c (.recv maxBytes), u.Sound := by
        intro u hu
        rw [uses] at hu
        split_ifs at hu with hroom
        · rw [List.mem_singleton.mp hu]
          exact h.bounded
        · exact absurd hu List.not_mem_nil
      simp only [akTcpRecv] at hcall
      split_ifs at hcall
      · cases hcall
        exact ⟨rfl, h.bounded, trivial, hsound⟩
      · cases hcall
        exact ⟨rfl, h.bounded, trivial, hsound⟩
      · cases hcall
        exact ⟨rfl, h.bounded, ⟨recvSize_le c maxBytes, recvSize_budget h maxBytes⟩, hsound⟩
  | recvSsl fd toRecv =>
      cases hcall
      exact ⟨rfl, h.bounded, hp, by simp [uses]⟩
  | receiving fd ssl toRecv =>
      obtain ⟨hchunk, hbudget⟩ := hp
      have hsound : ∀ u ∈ uses c (.receiving fd ssl toRecv), u.Sound := by
        intro u hu
        rw [List.mem_singleton.mp hu]
        exact hchunk
      simp only [akTcpRecv] at hcall
      split at hcall
      · cases hcall
        exact ⟨rfl, h.bounded, trivial, hsound⟩
      · next data _ =>
          have hdata := List.length_take_le toRecv data
          split_ifs at hcall
          all_goals cases hcall
          · exact ⟨rfl, h.bounded, trivial, hsound⟩
          · exact ⟨rfl, h.bounded, show _ ≤ _ by omega, hsound⟩
          · exact ⟨rfl, h.bounded, trivial, hsound⟩
  | recvClosed =>
      cases hcall
      exact ⟨rfl, h.bounded, trivial, by simp [uses]⟩
  | recvCount received =>
      cases hcall
      exact ⟨rfl, hp, trivial, by simp [uses]⟩
  | send | sendSsl | sending | sendClosed | recvUntil | untilAlive | untilCopy | untilReceiving | untilClosed | untilCount
    | returned => cases hcall

theorem akTcpIsAlive_kept (c : Conn) (peerClosed : Bool) :
    (akTcpIsAlive c peerClosed).2.1.maxRecvBufferBytes = c.maxRecvBufferBytes ∧
      (akTcpIsAlive c peerClosed).2.1.bufferedBytes = c.bufferedBytes := by
  rw [akTcpIsAlive]
  split
  · split_ifs <;> exact ⟨rfl, rfl⟩
  · exact ⟨rfl, rfl⟩

theorem capped_of_result {delim : List UInt8} {maxBytes n : Nat} (hp : p₀ = .recvUntil delim maxBytes)
    (h : 0 < maxBytes → n ≤ maxBytes) : Capped p₀ n := by
  intro delim' maxBytes' hp' hpos
  obtain ⟨rfl, rfl⟩ : delim = delim' ∧ maxBytes = maxBytes' := by simpa using hp.symm.trans hp'
  exact h hpos

theorem untilAlive_within {delim : List UInt8} {maxBytes : Nat} {result : List UInt8} (h : Within c)
    (hp : PhaseOk c p₀ (.untilAlive delim maxBytes result))
    (hcall : akTcpRecvUntil c reply (.untilAlive delim maxBytes result) = some (p', c', events)) :
    StepOk c p₀ (.untilAlive delim maxBytes result) c' p' := by
  obtain ⟨hp₀, hlen⟩ := hp
  have hsound : ∀ u ∈ uses c (.untilAlive delim maxBytes result), u.Sound := by
    intro u hu
    rw [uses] at hu
    split_ifs at hu with hle
    · rw [List.mem_singleton.mp hu]
      exact hle
    · exact absurd hu List.not_mem_nil
  obtain ⟨hlimit, hbuffered⟩ := akTcpIsAlive_kept c reply.peerClosed
  have hbound := h.bounded
  rw [← hlimit, ← hbuffered] at hbound
  simp only [akTcpRecvUntil] at hcall
  split at hcall
  · cases hcall
    exact ⟨hlimit, hbound, phaseOk_finish (capped_of_result hp₀ hlen), hsound⟩
  · split at hcall
    · cases hcall
      refine ⟨hlimit, hbound, capped_of_result hp₀ fun hpos => ?_, hsound⟩
      exact (List.length_take_le' _ _).trans (hlen hpos)
    · split at hcall
      · cases hcall
        exact ⟨hlimit, hbound, trivial, hsound⟩
      · next hshort =>
          cases hcall
          exact ⟨hlimit, hbound, ⟨hp₀, fun hpos => by omega⟩, hsound⟩

theorem untilCopy_within {delim : List UInt8} {maxBytes : Nat} {result : List UInt8} (h : Within c)
    (hp : PhaseOk c p₀ (.untilCopy delim maxBytes result))
    (hcall : akTcpRecvUntil c reply (.untilCopy delim maxBytes result) = some (p', c', events)) :
    StepOk c p₀ (.untilCopy delim maxBytes result) c' p' := by
  obtain ⟨hp₀, hlen⟩ := hp
  have hsound : ∀ u ∈ uses c (.untilCopy delim maxBytes result), u.Sound := by
    intro u hu
    rw [uses] at hu
    split_ifs at hu with hroom hmax hlimit hlimit
    · rcases List.mem_append.mp hu with hu | hu
      · rw [List.mem_singleton.mp hu]
        exact (hlen hmax.1).le
      · rw [List.mem_singleton.mp hu]
        exact h.bounded
    · exact absurd h.limited hlimit
    · rw [List.mem_singleton.mp hu]
      exact h.bounded
    · exact absurd h.limited hlimit
    · exact absurd hu List.not_mem_nil
  simp only [akTcpRecvUntil] at hcall
  split_ifs at hcall
  · cases hcall
    exact ⟨rfl, h.bounded, phaseOk_finish (capped_of_result hp₀ fun hpos => (hlen hpos).le), hsound⟩
  · cases hcall
    exact ⟨rfl, h.bounded, trivial, hsound⟩
  · cases hcall
    exact ⟨rfl, h.bounded, ⟨hp₀, toRead_ok h hlen⟩, hsound⟩

theorem akTcpRecvUntil_within (h : Within c) (hp : PhaseOk c p₀ p)
    (hcall : akTcpRecvUntil c reply p = some (p', c', events)) : StepOk c p₀ p c' p' := by
  cases p with
  | recvUntil delim maxBytes =>
      simp only [akTcpRecvUntil] at hcall
      split_ifs at hcall
      · cases hcall
        exact ⟨rfl, h.bounded, trivial, by simp [uses]⟩
      · cases hcall
        exact ⟨rfl, h.bounded, trivial, by simp [uses]⟩
      · cases hcall
        exact ⟨rfl, h.bounded, ⟨hp, fun _ => Nat.zero_le _⟩, by simp [uses]⟩
  | untilAlive delim maxBytes result => exact untilAlive_within h hp hcall
  | untilCopy delim maxBytes result => exact untilCopy_within h hp hcall
  | untilReceiving fd ssl toRecv delim maxBytes result =>
      obtain ⟨hp₀, hchunk, hbudget, hlen⟩ := hp
      have hsound : ∀ u ∈ uses c (.untilReceiving fd ssl toRecv delim maxBytes result), u.Sound := by
        intro u hu
        rw [List.mem_singleton.mp hu]
        exact hchunk
      simp only [akTcpRecvUntil] at hcall
      split at hcall
      · cases hcall
        exact ⟨rfl, h.bounded, trivial, hsound⟩
      · next data _ =>
          have hdata := List.length_take_le toRecv data
          split_ifs at hcall
          all_goals cases hcall
          · exact ⟨rfl, h.bounded, capped_of_result hp₀ fun hpos => by have := hlen hpos; omega, hsound⟩
          · refine ⟨rfl, h.bounded, ⟨hp₀, by omega, fun hpos => ?_⟩, hsound⟩
            have := hlen hpos
            rw [List.length_append]
            omega
          · exact ⟨rfl, h.bounded, trivial, hsound⟩
  | untilClosed result =>
      cases hcall
      exact ⟨rfl, h.bounded, phaseOk_finish hp, by simp [uses]⟩
  | untilCount received delim maxBytes result =>
      obtain ⟨hp₀, hbudget, hlen⟩ := hp
      cases hcall
      exact ⟨rfl, hbudget, ⟨hp₀, hlen⟩, by simp [uses]⟩
  | send | sendSsl | sending | sendClosed | recv | recvSsl | receiving | recvClosed | recvCount | returned => cases hcall

theorem callStep_within (h : Within c) (hp : PhaseOk c p₀ p) (hcall : callStep c reply p = some (p', c', events)) :
    StepOk c p₀ p c' p' := by
  cases p with
  | send | sendSsl | sending | sendClosed =>
      simp only [callStep] at hcall
      exact akTcpSend_within h hcall
  | recv | recvSsl | receiving | recvClosed | recvCount =>
      simp only [callStep] at hcall
      exact akTcpRecv_within h hp hcall
  | recvUntil | untilAlive | untilCopy | untilReceiving | untilClosed | untilCount =>
      simp only [callStep] at hcall
      exact akTcpRecvUntil_within h hp hcall
  | returned => cases hcall

end Steps

structure Inv (limit : Nat) (trace : List Use) (s : Caller) : Prop where
  same : s.conn.maxRecvBufferBytes = limit
  bounded : s.conn.bufferedBytes ≤ limit
  phase : ∀ p₀ p, s.call = some (p₀, p) → PhaseOk s.conn p₀ p
  sound : ∀ u ∈ trace, u.Sound

theorem consume_bounded (c : Conn) (bytes : Nat) :
    (akTcpConsumeBytes c bytes).maxRecvBufferBytes = c.maxRecvBufferBytes ∧
      (akTcpConsumeBytes c bytes).bufferedBytes ≤ c.bufferedBytes ∧ ∀ u ∈ consumeUses c bytes, u.Sound := by
  rw [akTcpConsumeBytes, consumeUses]
  split_ifs with hlt
  · exact ⟨rfl, Nat.zero_le _, fun u hu => absurd hu List.not_mem_nil⟩
  · refine ⟨rfl, Nat.sub_le _ _, fun u hu => ?_⟩
    rw [List.mem_singleton.mp hu]
    exact not_lt.mp hlt

theorem phaseOk_begin (c : Conn) {p : CallPhase} (hp : begins p = true) : PhaseOk c p p := by
  cases p with
  | send | recv => trivial
  | recvUntil delim maxBytes => exact rfl
  | sendSsl | sending | sendClosed | recvSsl | receiving | recvClosed | recvCount | untilAlive | untilCopy
    | untilReceiving | untilClosed | untilCount | returned => cases hp

theorem Inv.step {limit : Nat} {trace events : List Use} {s s' : Caller} (hlimit : 0 < limit) (h : Inv limit trace s)
    (hs : Step s events s') : Inv limit (trace ++ events) s' := by
  cases hs with
  | begin p hidle hp =>
      refine ⟨h.same, h.bounded, fun p₀ p' hcall => ?_, by rw [List.append_nil]; exact h.sound⟩
      obtain ⟨rfl, rfl⟩ : p = p₀ ∧ p = p' := by simpa using hcall
      exact phaseOk_begin _ hp
  | call p₀ p p' reply conn events hp hcall =>
      have hwithin : Within s.conn := ⟨h.same ▸ hlimit, h.same ▸ h.bounded⟩
      have hok := callStep_within hwithin (h.phase p₀ p hp) hcall
      refine ⟨hok.limit.trans h.same, (hok.limit.trans h.same) ▸ hok.bounded, fun q₀ q hq => ?_, fun u hu => ?_⟩
      · obtain ⟨rfl, rfl⟩ : p₀ = q₀ ∧ p' = q := by simpa using hq
        exact hok.phase
      · rcases List.mem_append.mp hu with hu | hu
        · exact h.sound u hu
        · exact hok.sound u hu
  | done p₀ r hr =>
      exact ⟨h.same, h.bounded, fun p₀ p hcall => absurd hcall (by simp), by rw [List.append_nil]; exact h.sound⟩
  | consume bytes hidle =>
      obtain ⟨hkept, hle, hsound⟩ := consume_bounded s.conn bytes
      refine ⟨hkept.trans h.same, hle.trans h.bounded, fun p₀ p hcall => ?_, fun u hu => ?_⟩
      · rw [hidle] at hcall
        exact absurd hcall (by simp)
      · rcases List.mem_append.mp hu with hu | hu
        · exact h.sound u hu
        · exact hsound u hu

/-- In every run of calls on a context with a limit, the buffered bytes stay within
the limit, no subtraction wraps, no receive asks for more than the chunk holds, and
no result of `ak_tcp_recv_until` is longer than its `max_bytes`. -/
theorem backpressure_bound (fd : Nat) (ssl : Option Nat) (limit : Nat) (hlimit : 0 < limit) (trace : List Use)
    (s : Caller) (h : Run Step (Caller.start fd ssl limit) trace s) :
    s.conn.maxRecvBufferBytes = limit ∧ s.conn.bufferedBytes ≤ limit ∧
      (∀ a b, .subtracted a b ∈ trace → b ≤ a) ∧ (∀ n, .asked n ∈ trace → n ≤ tcpRecvChunkSize) ∧
      ∀ delim maxBytes out, s.call = some (.recvUntil delim maxBytes, .returned (.buffer (.buffer out))) →
        0 < maxBytes → out.length ≤ maxBytes := by
  have hinv : Inv limit trace s := by
    refine h.invariant ⟨rfl, Nat.zero_le _, fun p₀ p hcall => ?_, fun u hu => absurd hu List.not_mem_nil⟩
      fun trace s events s' hi hs => hi.step hlimit hs
    exact absurd hcall (by simp [Caller.start])
  refine ⟨hinv.same, hinv.bounded, fun a b hu => hinv.sound _ hu, fun n hu => hinv.sound _ hu, ?_⟩
  intro delim maxBytes out hcall hpos
  exact hinv.phase _ _ hcall delim maxBytes rfl hpos

/-- A receive of up to eight bytes under a limit of four. -/
theorem backpressure_bound_recv :
    ∃ trace s, Run Step (Caller.start 3 none 4) trace s ∧ .asked 4 ∈ trace ∧ s.conn.bufferedBytes = 3 ∧
      s.conn.bufferedBytes ≤ 4 := by
  have hstart : Run Step (Caller.start 3 none 4) [] (Caller.start 3 none 4) := .start
  have hbegin := hstart.next (.begin _ (.recv 8) rfl rfl)
  have hsize := hbegin.next (.call _ (.recv 8) (.recv 8) _ ⟨none, none, "", false, true⟩ _ _ rfl rfl)
  have hssl := hsize.next (.call _ (.recv 8) _ _ ⟨none, none, "", false, true⟩ _ _ rfl rfl)
  have hrecv := hssl.next (.call _ (.recv 8) _ _ ⟨none, some [97, 98, 99], "", false, true⟩ _ _ rfl rfl)
  have hcount := hrecv.next (.call _ (.recv 8) _ _ ⟨none, none, "", false, true⟩ _ _ rfl rfl)
  exact ⟨_, _, hcount, by decide, rfl, (backpressure_bound 3 none 4 (by decide) _ _ hcount).2.1⟩

end Ak24.TcpBackpressure
