import Ak24.TcpCalls
import Ak24.TcpFraming

namespace Ak24.TcpStream

open TcpModel hiding akTcpRecvUntil akTcpIsAlive
open TcpCalls TcpFraming Records Transition

/-- A call on the connection: how it began, where it is, what it has to send, the
bytes it has moved through the connection so far, and those of them that are in
the buffer of its caller. -/
structure Transfer where
  began : CallPhase
  phase : CallPhase
  data : List UInt8
  moved : List UInt8
  kept : List UInt8
  deriving DecidableEq

/-- One direction of a connection, with the bytes on their way. On either side
one call transfers at a time; `shut` is the end of what the sender sends. -/
structure Stream where
  sender : Conn
  receiver : Conn
  wire : List UInt8
  shut : Bool
  sending : Option Transfer
  receiving : Option Transfer
  sent : List Transfer
  received : List Transfer
  deriving DecidableEq

def Stream.start (sender receiver : Conn) : Stream := ⟨sender, receiver, [], false, none, none, [], []⟩

def given (data : List UInt8) (reply : Reply) : CallPhase → List UInt8
  | .sending _ _ toSend sent =>
    if sent < toSend then
      match reply.sent with
      | none => []
      | some k => (data.drop sent).take k
    else []
  | _ => []

def taken (reply : Reply) : CallPhase → List UInt8
  | .receiving _ _ toRecv => (reply.received.getD []).take toRecv
  | .untilReceiving _ _ toRecv _ _ _ => (reply.received.getD []).take toRecv
  | _ => []

def appended (reply : Reply) : CallPhase → List UInt8
  | .receiving fd ssl toRecv => if reply.alloc then taken reply (.receiving fd ssl toRecv) else []
  | _ => []

def requested : CallPhase → Option Nat
  | .receiving _ _ toRecv => some toRecv
  | .untilReceiving _ _ toRecv _ _ _ => some toRecv
  | _ => none

/-- A receive answers with bytes off the wire, and with none of them only where
none were asked for or the stream has ended. -/
def Delivers (s : Stream) (reply : Reply) (phase : CallPhase) : Prop :=
  taken reply phase <+: s.wire ∧
    (taken reply phase = [] → ∀ toRecv ∈ requested phase, reply.received.isSome = true →
      toRecv = 0 ∨ (s.wire = [] ∧ s.shut = true))

instance (s : Stream) (reply : Reply) (phase : CallPhase) : Decidable (Delivers s reply phase) :=
  inferInstanceAs (Decidable (_ ∧ _))

def sends : CallPhase → Bool
  | .send _ => true
  | _ => false

/-- What the other threads of either side do to its context is left open. -/
inductive Step : Stream → List Event → Stream → Prop
  | beginSend (s : Stream) (data : List UInt8) (hidle : s.sending = none) :
    Step s [] { s with sending := some ⟨.send data.length, .send data.length, data, [], []⟩ }
  | send (s : Stream) (t : Transfer) (reply : Reply) (phase : CallPhase) (sender : Conn) (events : List Event)
    (ht : s.sending = some t) (hopen : given t.data reply t.phase ≠ [] → s.shut = false)
    (hstep : callStep s.sender reply t.phase = some (phase, sender, events)) :
    Step s events { s with
      sender
      wire := s.wire ++ given t.data reply t.phase
      sending := some { t with phase, moved := t.moved ++ given t.data reply t.phase } }
  | endSend (s : Stream) (t : Transfer) (r : Returned) (ht : s.sending = some t) (hphase : t.phase = .returned r) :
    Step s [] { s with sending := none, sent := s.sent ++ [t] }
  | beginRecv (s : Stream) (phase : CallPhase) (hbegins : begins phase = true) (hrecv : sends phase = false)
    (hidle : s.receiving = none) : Step s [] { s with receiving := some ⟨phase, phase, [], [], []⟩ }
  | recv (s : Stream) (t : Transfer) (reply : Reply) (phase : CallPhase) (receiver : Conn) (events : List Event)
    (ht : s.receiving = some t) (hdelivers : Delivers s reply t.phase)
    (hstep : callStep s.receiver reply t.phase = some (phase, receiver, events)) :
    Step s events { s with
      receiver
      wire := s.wire.drop (taken reply t.phase).length
      receiving := some
        { t with phase, moved := t.moved ++ taken reply t.phase, kept := t.kept ++ appended reply t.phase } }
  | endRecv (s : Stream) (t : Transfer) (r : Returned) (ht : s.receiving = some t) (hphase : t.phase = .returned r) :
    Step s [] { s with receiving := none, received := s.received ++ [t] }
  | shut (s : Stream) : Step s [] { s with shut := true }
  | others (s : Stream) (sender receiver : Conn) : Step s [] { s with sender, receiver }

def SendOk (t : Transfer) : Prop :=
  match t.phase with
  | .send n => n = t.data.length ∧ t.moved = []
  | .sendSsl _ n => n = t.data.length ∧ t.moved = []
  | .sending _ _ n sent => n = t.data.length ∧ sent ≤ n ∧ t.moved = t.data.take sent
  | .sendClosed => t.moved <+: t.data
  | .returned (.count n _) => (n = t.data.length ∧ t.moved = t.data) ∨ (n = -1 ∧ t.moved <+: t.data)
  | _ => False

def RecvOk (t : Transfer) : Prop :=
  match t.phase with
  | .recv maxBytes => t.began = .recv maxBytes ∧ t.moved = [] ∧ t.kept = []
  | .recvSsl _ toRecv => (∃ maxBytes, t.began = .recv maxBytes ∧ (toRecv = 0 → maxBytes = 0)) ∧ t.moved = [] ∧ t.kept = []
  | .receiving _ _ toRecv =>
    (∃ maxBytes, t.began = .recv maxBytes ∧ (toRecv = 0 → maxBytes = 0)) ∧ t.moved = [] ∧ t.kept = []
  | .recvClosed => t.moved = [] ∧ t.kept = []
  | .recvCount n => 0 < n ∧ n = t.moved.length ∧ t.kept = t.moved
  | .recvUntil delim maxBytes => t.began = .recvUntil delim maxBytes ∧ t.moved = []
  | .untilAlive delim maxBytes result => t.began = .recvUntil delim maxBytes ∧ t.moved = result
  | .untilCopy delim maxBytes result => t.began = .recvUntil delim maxBytes ∧ t.moved = result
  | .untilReceiving _ _ _ delim maxBytes result => t.began = .recvUntil delim maxBytes ∧ t.moved = result
  | .untilClosed result => t.moved = result
  | .untilCount _ delim maxBytes result => t.began = .recvUntil delim maxBytes ∧ t.moved = result
  | .returned (.count n error) =>
    (0 < n ∧ n = t.moved.length ∧ t.kept = t.moved) ∨
      (n ≤ 0 ∧ t.kept = [] ∧ (t.moved = [] ∨ error = some "Buffer allocation failed"))
  | .returned (.buffer (.buffer out)) =>
    out = t.moved ∨ ∃ delim maxBytes n, t.began = .recvUntil delim maxBytes ∧ IsRecord delim t.moved n ∧
      out = t.moved.take n
  | .returned (.buffer (.null _)) => True
  | _ => False

/-- A receive of at least one byte that has found the end of the stream. -/
def MetEnd (t : Transfer) : Prop :=
  (t.phase = .recvClosed ∨ t.phase = .returned (.count 0 none)) ∧ t.began ≠ .recv 0

/-- The bytes the receives took are the bytes the sends gave, in order and but
for those on their way. -/
structure Intact (s : Stream) : Prop where
  bytes : s.sent.flatMap Transfer.moved ++ (s.sending.map Transfer.moved).getD [] =
    s.received.flatMap Transfer.moved ++ (s.receiving.map Transfer.moved).getD [] ++ s.wire
  sending : ∀ t, s.sending = some t → SendOk t
  sent : ∀ t ∈ s.sent, SendOk t ∧ ∃ r, t.phase = .returned r
  receiving : ∀ t, s.receiving = some t → RecvOk t
  received : ∀ t ∈ s.received, RecvOk t ∧ ∃ r, t.phase = .returned r
  ended : (∃ t, (s.receiving = some t ∨ t ∈ s.received) ∧ MetEnd t) → s.wire = [] ∧ s.shut = true

section Steps

variable {s s' : Stream} {t : Transfer} {reply : Reply} {phase : CallPhase} {conn conn' : Conn} {events : List Event}

theorem sendOk_step (h : SendOk t) (hstep : callStep conn reply t.phase = some (phase, conn', events)) :
    SendOk { t with phase, moved := t.moved ++ given t.data reply t.phase } := by
  obtain ⟨began, p, data, moved, kept⟩ := t
  simp only [SendOk] at h
  cases p with
  | send n =>
      simp only [callStep, akTcpSend] at hstep
      split_ifs at hstep with halive
      · cases hstep
        exact .inr ⟨rfl, by simp [given, h.2]⟩
      · cases hstep
        exact ⟨h.1, by simp [given, h.2]⟩
  | sendSsl fd n =>
      cases hstep
      obtain ⟨rfl, hmoved⟩ := h
      exact ⟨rfl, Nat.zero_le _, by simp [given, hmoved]⟩
  | sending fd ssl n sent =>
      obtain ⟨rfl, hle, hmoved⟩ := h
      simp only [callStep, akTcpSend] at hstep
      split_ifs at hstep with hlt
      · cases hsent : reply.sent with
        | none =>
            simp only [hsent] at hstep
            cases hstep
            refine .inr ⟨rfl, ?_⟩
            simp only [given, if_pos hlt, hsent, hmoved, List.append_nil]
            exact List.take_prefix _ _
        | some k =>
            have hgiven : moved ++ given data reply (.sending fd ssl data.length sent) =
                data.take (min (sent + k) data.length) := by
              simp only [given, if_pos hlt, hsent, hmoved]
              rw [← List.take_add, ← List.take_eq_take_min]
            cases k with
            | zero =>
                simp only [hsent] at hstep
                cases hstep
                show moved ++ given data reply (.sending fd ssl data.length sent) <+: data
                rw [hgiven]
                exact List.take_prefix _ _
            | succ k =>
                simp only [hsent] at hstep
                cases hstep
                exact ⟨rfl, Nat.min_le_right _ _, hgiven⟩
      · cases hstep
        have hall : sent = data.length := Nat.le_antisymm hle (not_lt.mp hlt)
        refine .inl ⟨by rw [hall], ?_⟩
        simp only [given, if_neg hlt, hmoved, List.append_nil]
        rw [hall, List.take_length]
  | sendClosed =>
      cases hstep
      exact .inr ⟨rfl, by simpa [given] using h⟩
  | returned r => cases hstep
  | _ => exact absurd h id

theorem recvSize_zero {maxBytes : Nat} (hroom : ¬(0 < conn.maxRecvBufferBytes ∧
    conn.maxRecvBufferBytes ≤ conn.bufferedBytes)) (h : recvSize conn maxBytes = 0) : maxBytes = 0 := by
  have hchunk : 0 < tcpRecvChunkSize := by decide
  simp only [recvSize] at h
  split_ifs at h <;> omega

theorem recvOk_finish {began : CallPhase} {data kept result : List UInt8} :
    RecvOk ⟨began, finishUntil result, data, result, kept⟩ := by
  rw [finishUntil, finishRecv]
  split_ifs
  · exact trivial
  · exact .inl rfl

theorem recvOk_step (h : RecvOk t) (hstep : callStep conn reply t.phase = some (phase, conn', events)) :
    RecvOk { t with phase, moved := t.moved ++ taken reply t.phase, kept := t.kept ++ appended reply t.phase } := by
  obtain ⟨began, p, data, moved, kept⟩ := t
  simp only [RecvOk] at h
  cases p with
  | recv maxBytes =>
      obtain ⟨rfl, rfl, rfl⟩ := h
      simp only [callStep, akTcpRecv] at hstep
      split_ifs at hstep with halive hroom
      · cases hstep
        exact .inr ⟨by decide, rfl, .inl rfl⟩
      · cases hstep
        exact .inr ⟨by decide, rfl, .inl rfl⟩
      · cases hstep
        exact ⟨⟨maxBytes, rfl, recvSize_zero hroom⟩, rfl, rfl⟩
  | recvSsl fd toRecv =>
      cases hstep
      obtain ⟨hbegan, rfl, rfl⟩ := h
      exact ⟨hbegan, rfl, rfl⟩
  | receiving fd ssl toRecv =>
      obtain ⟨hbegan, rfl, rfl⟩ := h
      simp only [callStep, akTcpRecv] at hstep
      cases hreceived : reply.received with
      | none =>
          simp only [hreceived] at hstep
          cases hstep
          refine .inr ⟨by decide, ?_, .inl ?_⟩ <;> simp [appended, taken, hreceived]
      | some bytes =>
          have htaken : taken reply (.receiving fd ssl toRecv) = bytes.take toRecv := by simp [taken, hreceived]
          simp only [hreceived] at hstep
          split_ifs at hstep with hnone halloc
          · cases hstep
            rw [List.length_eq_zero_iff, ← htaken] at hnone
            refine ⟨hnone, ?_⟩
            simp [appended, hnone]
          · cases hstep
            refine ⟨Nat.pos_of_ne_zero hnone, ?_, ?_⟩
            · rw [List.nil_append, htaken]
            · rw [appended, if_pos halloc]
          · cases hstep
            refine .inr ⟨by decide, ?_, .inr rfl⟩
            rw [appended, if_neg halloc, List.append_nil]
  | recvClosed =>
      cases hstep
      obtain ⟨rfl, rfl⟩ := h
      exact .inr ⟨le_rfl, rfl, .inl rfl⟩
  | recvCount n =>
      cases hstep
      obtain ⟨hpos, hlength, rfl⟩ := h
      refine .inl ⟨by exact_mod_cast hpos, ?_, ?_⟩
      · rw [hlength]
        simp [taken]
      · simp [taken, appended]
  | recvUntil delim maxBytes =>
      obtain ⟨rfl, rfl⟩ := h
      simp only [callStep, akTcpRecvUntil] at hstep
      split_ifs at hstep <;> cases hstep
      · exact trivial
      · exact trivial
      · exact ⟨rfl, rfl⟩
  | untilAlive delim maxBytes result =>
      obtain ⟨hbegan, rfl⟩ := h
      simp only [taken, List.append_nil]
      cases hfind : findDelim delim moved with
      | none =>
          simp only [callStep, akTcpRecvUntil, hfind] at hstep
          split_ifs at hstep <;> cases hstep
          · exact recvOk_finish
          · exact trivial
          · exact ⟨hbegan, rfl⟩
      | some i =>
          simp only [callStep, akTcpRecvUntil, hfind] at hstep
          split_ifs at hstep <;> cases hstep
          · exact recvOk_finish
          · exact .inr ⟨delim, maxBytes, _, hbegan, findDelim_some hfind, rfl⟩
  | untilCopy delim maxBytes result =>
      obtain ⟨hbegan, rfl⟩ := h
      simp only [callStep, akTcpRecvUntil] at hstep
      simp only [taken, List.append_nil]
      split_ifs at hstep <;> cases hstep
      · exact recvOk_finish
      · exact trivial
      · exact ⟨hbegan, rfl⟩
  | untilReceiving fd ssl toRecv delim maxBytes result =>
      obtain ⟨hbegan, rfl⟩ := h
      simp only [callStep, akTcpRecvUntil] at hstep
      cases hreceived : reply.received with
      | none =>
          simp only [hreceived] at hstep
          cases hstep
          exact trivial
      | some bytes =>
          have htaken : taken reply (.untilReceiving fd ssl toRecv delim maxBytes moved) = bytes.take toRecv := by
            simp [taken, hreceived]
          simp only [hreceived] at hstep
          split_ifs at hstep with hnone <;> cases hstep
          · rw [List.length_eq_zero_iff, ← htaken] at hnone
            simp only [hnone, List.append_nil]
            exact rfl
          · exact ⟨hbegan, by rw [htaken]⟩
          · exact trivial
  | untilClosed result =>
      cases hstep
      obtain rfl := h
      simp only [taken, List.append_nil]
      exact recvOk_finish
  | untilCount n delim maxBytes result =>
      cases hstep
      obtain ⟨hbegan, rfl⟩ := h
      exact ⟨hbegan, by simp [taken]⟩
  | returned r => cases hstep
  | _ => exact absurd h id

theorem metEnd_step (h : RecvOk t) (hstep : callStep conn reply t.phase = some (phase, conn', events))
    (hend : MetEnd { t with phase, moved := t.moved ++ taken reply t.phase, kept := t.kept ++ appended reply t.phase }) :
    MetEnd t ∨ ∃ toRecv, requested t.phase = some toRecv ∧ toRecv ≠ 0 ∧ reply.received.isSome = true ∧
      taken reply t.phase = [] := by
  obtain ⟨began, p, data, moved, kept⟩ := t
  obtain ⟨hphase, hbegan⟩ := hend
  simp only [RecvOk] at h
  simp only at hphase hbegan
  cases p with
  | recv maxBytes =>
      simp only [callStep, akTcpRecv] at hstep
      split_ifs at hstep <;> cases hstep <;> simp [refuse] at hphase
  | receiving fd ssl toRecv =>
      obtain ⟨⟨maxBytes, rfl, hzero⟩, -⟩ := h
      simp only [callStep, akTcpRecv] at hstep
      cases hreceived : reply.received with
      | none =>
          simp only [hreceived] at hstep
          cases hstep
          simp [refuse] at hphase
      | some bytes =>
          simp only [hreceived] at hstep
          split_ifs at hstep with hnone <;> cases hstep
          · refine .inr ⟨toRecv, rfl, fun htoRecv => hbegan (by rw [hzero htoRecv]), rfl, ?_⟩
            rw [taken, hreceived]
            exact List.length_eq_zero_iff.mp hnone
          · simp at hphase
          · simp [refuse] at hphase
  | recvClosed => exact .inl ⟨.inl rfl, hbegan⟩
  | recvCount n =>
      cases hstep
      have hpos : 0 < n := h.1
      rcases hphase with hphase | hphase
      · cases hphase
      · simp only [CallPhase.returned.injEq, Returned.count.injEq] at hphase
        omega
  | recvSsl fd toRecv =>
      cases hstep
      simp at hphase
  | recvUntil delim maxBytes =>
      simp only [callStep, akTcpRecvUntil] at hstep
      split_ifs at hstep <;> cases hstep <;> simp [failUntil] at hphase
  | untilAlive delim maxBytes result =>
      cases hfind : findDelim delim result <;> simp only [callStep, akTcpRecvUntil, hfind] at hstep <;>
        split_ifs at hstep <;> cases hstep <;> simp [failUntil, finishUntil] at hphase
  | untilCopy delim maxBytes result =>
      simp only [callStep, akTcpRecvUntil] at hstep
      split_ifs at hstep <;> cases hstep <;> simp [failUntil, finishUntil] at hphase
  | untilReceiving fd ssl toRecv delim maxBytes result =>
      cases hreceived : reply.received <;> simp only [callStep, akTcpRecvUntil, hreceived] at hstep
      · cases hstep
        simp [failUntil] at hphase
      · split_ifs at hstep <;> cases hstep <;> simp [failUntil] at hphase
  | untilClosed result =>
      cases hstep
      simp [finishUntil] at hphase
  | untilCount n delim maxBytes result =>
      cases hstep
      simp at hphase
  | returned r => cases hstep
  | _ => exact absurd h id

theorem forall_none {α : Type} {P : α → Prop} : ∀ a, none = some a → P a := nofun

theorem Intact.step (h : Intact s) (hs : Step s events s') : Intact s' := by
  cases hs with
  | beginSend data hidle =>
      refine ⟨?_, ?_, h.sent, h.receiving, h.received, h.ended⟩
      · have hbytes := h.bytes
        rw [hidle] at hbytes
        exact hbytes
      · rintro _ ⟨⟩
        exact ⟨rfl, rfl⟩
  | send t reply phase sender _ ht hopen hstep =>
      refine ⟨?_, ?_, h.sent, h.receiving, h.received, ?_⟩
      · have hbytes := h.bytes
        rw [ht] at hbytes
        simp only [Option.map_some, Option.getD_some] at hbytes ⊢
        rw [← List.append_assoc, hbytes, ← List.append_assoc]
      · rintro _ ⟨⟩
        exact sendOk_step (h.sending t ht) hstep
      · intro hend
        obtain ⟨hwire, hshut⟩ := h.ended hend
        have hnone : given t.data reply t.phase = [] := by
          by_contra hsome
          rw [hopen hsome] at hshut
          cases hshut
        exact ⟨by rw [hwire, hnone, List.append_nil], hshut⟩
  | endSend t r ht hphase =>
      refine ⟨?_, forall_none, ?_, h.receiving, h.received, h.ended⟩
      · have hbytes := h.bytes
        rw [ht] at hbytes
        simpa using hbytes
      · intro u hu
        rcases List.mem_append.mp hu with hu | hu
        · exact h.sent u hu
        · rw [List.mem_singleton.mp hu]
          exact ⟨h.sending t ht, r, hphase⟩
  | beginRecv phase hbegins hrecv hidle =>
      refine ⟨?_, h.sending, h.sent, ?_, h.received, ?_⟩
      · have hbytes := h.bytes
        rw [hidle] at hbytes
        exact hbytes
      · rintro _ ⟨⟩
        cases phase with
        | recv maxBytes => exact ⟨rfl, rfl, rfl⟩
        | recvUntil delim maxBytes => exact ⟨rfl, rfl⟩
        | send n => cases hrecv
        | _ => cases hbegins
      · rintro ⟨t, ht, hend⟩
        rcases ht with ht | ht
        · cases ht
          rcases hend.1 with hphase | hphase <;> rw [show phase = _ from hphase] at hbegins <;> cases hbegins
        · exact h.ended ⟨t, .inr ht, hend⟩
  | recv t reply phase receiver _ ht hdelivers hstep =>
      refine ⟨?_, h.sending, h.sent, ?_, h.received, ?_⟩
      · have hbytes := h.bytes
        obtain ⟨rest, hrest⟩ := hdelivers.1
        rw [ht] at hbytes
        simp only [Option.map_some, Option.getD_some] at hbytes ⊢
        rw [hbytes, ← hrest, List.drop_left, List.append_assoc, List.append_assoc, List.append_assoc]
      · rintro _ ⟨⟩
        exact recvOk_step (h.receiving t ht) hstep
      · rintro ⟨u, hu, hend⟩
        have hdrop : s.wire = [] ∧ s.shut = true → s.wire.drop (taken reply t.phase).length = [] ∧ s.shut = true := by
          rintro ⟨hwire, hshut⟩
          exact ⟨by rw [hwire, List.drop_nil], hshut⟩
        apply hdrop
        rcases hu with hu | hu
        · cases hu
          rcases metEnd_step (h.receiving t ht) hstep hend with hold | ⟨toRecv, hrequested, hpos, hsome, hnone⟩
          · exact h.ended ⟨t, .inl ht, hold⟩
          · exact (hdelivers.2 hnone toRecv hrequested hsome).resolve_left hpos
        · exact h.ended ⟨u, .inr hu, hend⟩
  | endRecv t r ht hphase =>
      refine ⟨?_, h.sending, h.sent, forall_none, ?_, ?_⟩
      · have hbytes := h.bytes
        rw [ht] at hbytes
        simpa using hbytes
      · intro u hu
        rcases List.mem_append.mp hu with hu | hu
        · exact h.received u hu
        · rw [List.mem_singleton.mp hu]
          exact ⟨h.receiving t ht, r, hphase⟩
      · rintro ⟨u, hu, hend⟩
        rcases hu with hu | hu
        · cases hu
        · rcases List.mem_append.mp hu with hu | hu
          · exact h.ended ⟨u, .inr hu, hend⟩
          · rw [List.mem_singleton.mp hu] at hend
            exact h.ended ⟨t, .inl ht, hend⟩
  | shut => exact ⟨h.bytes, h.sending, h.sent, h.receiving, h.received, fun hend => ⟨(h.ended hend).1, rfl⟩⟩
  | others sender receiver => exact ⟨h.bytes, h.sending, h.sent, h.receiving, h.received, h.ended⟩

end Steps

section Runs

variable {s : Stream} {sender receiver : Conn} {events : List Event}

/-- However the calls on either side and the partial transfers of the sockets
fall together, the receives take the bytes that the sends give, in order. -/
theorem stream_intact (sender receiver : Conn) (hrun : Run Step (Stream.start sender receiver) events s) : Intact s := by
  refine hrun.invariant (P := fun _ s => Intact s) ?_ fun _ _ _ _ h hs => h.step hs
  refine ⟨rfl, forall_none, List.forall_mem_nil _, forall_none, List.forall_mem_nil _, ?_⟩
  rintro ⟨t, ht, -⟩
  rcases ht with ht | ht <;> cases ht

/-- A receive of `ak_tcp_recv` that did not fail for want of memory. -/
def Plain (t : Transfer) : Prop :=
  ∃ n error, t.phase = .returned (.count n error) ∧ error ≠ some "Buffer allocation failed"

theorem kept_of_plain {t : Transfer} (h : RecvOk t) (hplain : Plain t) : t.kept = t.moved := by
  obtain ⟨n, error, hphase, herror⟩ := hplain
  rw [RecvOk, hphase] at h
  rcases h with ⟨-, -, hkept⟩ | ⟨-, hkept, hmoved⟩
  · exact hkept
  · rw [hkept, hmoved.resolve_right herror]

theorem moved_of_sent {t : Transfer} (h : SendOk t) {n : Int} {error : Option String}
    (hphase : t.phase = .returned (.count n error)) (hn : n ≠ -1) : t.moved = t.data := by
  rw [SendOk, hphase] at h
  rcases h with ⟨-, hmoved⟩ | ⟨hfailed, -⟩
  · exact hmoved
  · exact absurd hfailed hn

theorem flatMap_congr {α β : Type} {f g : α → List β} {l : List α} (h : ∀ a ∈ l, f a = g a) :
    l.flatMap f = l.flatMap g := by
  rw [List.flatMap, List.flatMap, List.map_congr_left h]

/-- Where no send fails and every receive is a plain one, the buffers of the
receivers hold the beginning of what was sent, and all of it once a receive has
found the end. -/
theorem stream_delivered (sender receiver : Conn) (hrun : Run Step (Stream.start sender receiver) events s)
    (hidle : s.sending = none ∧ s.receiving = none)
    (hsent : ∀ t ∈ s.sent, ∃ n error, t.phase = .returned (.count n error) ∧ n ≠ -1)
    (hplain : ∀ t ∈ s.received, Plain t) :
    s.received.flatMap Transfer.kept <+: s.sent.flatMap Transfer.data ∧
      ((∃ t ∈ s.received, MetEnd t) → s.received.flatMap Transfer.kept = s.sent.flatMap Transfer.data) := by
  have hintact := stream_intact sender receiver hrun
  have hkept : s.received.flatMap Transfer.kept = s.received.flatMap Transfer.moved :=
    flatMap_congr fun t ht => kept_of_plain (hintact.received t ht).1 (hplain t ht)
  have hmoved : s.sent.flatMap Transfer.moved = s.sent.flatMap Transfer.data := by
    refine flatMap_congr fun t ht => ?_
    obtain ⟨n, error, hphase, hn⟩ := hsent t ht
    exact moved_of_sent (hintact.sent t ht).1 hphase hn
  have hbytes := hintact.bytes
  rw [hidle.1, hidle.2, hmoved, ← hkept] at hbytes
  simp only [Option.map_none, Option.getD_none, List.append_nil] at hbytes
  refine ⟨⟨s.wire, hbytes.symm⟩, ?_⟩
  rintro ⟨t, ht, hend⟩
  obtain ⟨hwire, -⟩ := hintact.ended ⟨t, .inr ht, hend⟩
  rw [hbytes, hwire, List.append_nil]

inductive Move
  | beginSend (data : List UInt8)
  | send (reply : Reply)
  | endSend
  | beginRecv (maxBytes : Nat)
  | recv (reply : Reply)
  | endRecv
  | shut

def next (s : Stream) : Move → Option (List Event × Stream)
  | .beginSend data =>
    if s.sending = none then some ([], { s with sending := some ⟨.send data.length, .send data.length, data, [], []⟩ })
    else none
  | .send reply =>
    match s.sending with
    | none => none
    | some t =>
      if given t.data reply t.phase ≠ [] ∧ s.shut = true then none
      else
        (callStep s.sender reply t.phase).map fun (phase, sender, events) => (events,
          { s with
            sender
            wire := s.wire ++ given t.data reply t.phase
            sending := some { t with phase, moved := t.moved ++ given t.data reply t.phase } })
  | .endSend =>
    match s.sending with
    | some ⟨began, .returned r, data, moved, kept⟩ =>
      some ([], { s with sending := none, sent := s.sent ++ [⟨began, .returned r, data, moved, kept⟩] })
    | _ => none
  | .beginRecv maxBytes =>
    if s.receiving = none then some ([], { s with receiving := some ⟨.recv maxBytes, .recv maxBytes, [], [], []⟩ })
    else none
  | .recv reply =>
    match s.receiving with
    | none => none
    | some t =>
      if Delivers s reply t.phase then
        (callStep s.receiver reply t.phase).map fun (phase, receiver, events) => (events,
          { s with
            receiver
            wire := s.wire.drop (taken reply t.phase).length
            receiving := some
              { t with phase, moved := t.moved ++ taken reply t.phase, kept := t.kept ++ appended reply t.phase } })
      else none
  | .endRecv =>
    match s.receiving with
    | some ⟨began, .returned r, data, moved, kept⟩ =>
      some ([], { s with receiving := none, received := s.received ++ [⟨began, .returned r, data, moved, kept⟩] })
    | _ => none
  | .shut => some ([], { s with shut := true })

theorem step_of_next (s : Stream) (m : Move) (events : List Event) (s' : Stream) (h : next s m = some (events, s')) :
    Step s events s' := by
  cases m with
  | beginSend data =>
      simp only [next] at h
      split_ifs at h with hidle
      cases h
      exact .beginSend s data hidle
  | send reply =>
      simp only [next] at h
      split at h
      · cases h
      · next t ht =>
          split_ifs at h with hopen
          obtain ⟨⟨phase, sender, events'⟩, hstep, heq⟩ := Option.map_eq_some_iff.mp h
          cases heq
          refine .send s t reply phase sender _ ht (fun hne => ?_) hstep
          rw [not_and, Bool.not_eq_true] at hopen
          exact hopen hne
  | endSend =>
      simp only [next] at h
      split at h
      · next ht =>
          cases h
          exact .endSend s _ _ ht rfl
      · cases h
  | beginRecv maxBytes =>
      simp only [next] at h
      split_ifs at h with hidle
      cases h
      exact .beginRecv s (.recv maxBytes) rfl rfl hidle
  | recv reply =>
      simp only [next] at h
      split at h
      · cases h
      · next t ht =>
          split_ifs at h with hdelivers
          obtain ⟨⟨phase, receiver, events'⟩, hstep, heq⟩ := Option.map_eq_some_iff.mp h
          cases heq
          exact .recv s t reply phase receiver _ ht hdelivers hstep
  | endRecv =>
      simp only [next] at h
      split at h
      · next ht =>
          cases h
          exact .endRecv s _ _ ht rfl
      · cases h
  | shut =>
      cases h
      exact .shut s

def sendsOne : Move := .send ⟨some 1, none, "", false, true⟩

def receives (data : List UInt8) : Move := .recv ⟨none, some data, "", false, true⟩

def twoBytes : List Move :=
  [.beginSend [7, 8], sendsOne, sendsOne, sendsOne, sendsOne, sendsOne, .endSend, .shut,
    .beginRecv 9, receives [7, 8], receives [7, 8], receives [7, 8], receives [7, 8], .endRecv,
    .beginRecv 9, receives [], receives [], receives [], receives [], .endRecv]

theorem stream_delivered_twoBytes : ∃ events s, Run Step (Stream.start (akTcpCtxNew 3) (akTcpCtxNew 4)) events s ∧
    s.sent.flatMap Transfer.data = [7, 8] ∧ s.received.flatMap Transfer.kept = s.sent.flatMap Transfer.data := by
  have hscript : (script next ([], Stream.start (akTcpCtxNew 3) (akTcpCtxNew 4)) twoBytes).map
      (fun r => ((r.2.sending, r.2.receiving), r.2.sent, r.2.received)) =
      some ((none, none), [⟨.send 2, .returned (.count 2 none), [7, 8], [7, 8], []⟩],
        [⟨.recv 9, .returned (.count 2 none), [], [7, 8], [7, 8]⟩,
          ⟨.recv 9, .returned (.count 0 none), [], [], []⟩]) := by decide
  obtain ⟨⟨events, s⟩, hr, hends⟩ := Option.map_eq_some_iff.mp hscript
  obtain ⟨hidle, hdone⟩ := Prod.mk.inj hends
  obtain ⟨hsent, hreceived⟩ := Prod.mk.inj hdone
  have hrun := Run.start.script step_of_next twoBytes hr
  refine ⟨events, s, hrun, by rw [hsent]; rfl, (stream_delivered _ _ hrun (Prod.mk.inj hidle) ?_ ?_).2 ?_⟩
  · rw [hsent]
    intro t ht
    rw [List.mem_singleton.mp ht]
    exact ⟨2, none, rfl, by decide⟩
  · rw [hreceived]
    intro t ht
    rcases List.mem_cons.mp ht with rfl | ht
    · exact ⟨2, none, rfl, nofun⟩
    · rw [List.mem_singleton.mp ht]
      exact ⟨0, none, rfl, nofun⟩
  · rw [hreceived]
    exact ⟨_, List.Mem.tail _ (List.Mem.head _), .inr rfl, nofun⟩

end Runs

end Ak24.TcpStream
