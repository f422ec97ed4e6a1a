import Mathlib

namespace Ak24.TcpModel

inductive Peek
  | eof
  | byte
  | wouldBlock
  | failed
  deriving DecidableEq, Repr

/-- What `poll` answers about a descriptor, with the peek that follows `POLLIN`. -/
inductive Poll
  | failed
  | idle
  | ready (hup err nval readable : Bool) (peek : Peek)
  deriving DecidableEq, Repr

def akTcpSocketPeerClosed : Poll → Bool
  | .failed => true
  | .idle => false
  | .ready hup err nval readable peek =>
    if hup || err || nval then true
    else if readable then peek == .eof || peek == .failed
    else false

def Poll.fails : Poll → Bool
  | .failed => true
  | .idle => false
  | .ready _ err nval readable peek => err || nval || (readable && peek == .failed)

def Poll.seesEnd : Poll → Bool
  | .ready hup _ _ readable peek => hup || (readable && peek == .eof)
  | _ => false

def Poll.hangsUp : Poll → Bool
  | .ready hup _ _ _ _ => hup
  | _ => false

theorem peerClosed_cases {poll : Poll} (h : akTcpSocketPeerClosed poll = true) :
    poll.fails = true ∨ poll.seesEnd = true := by
  cases poll with
  | failed => exact Or.inl rfl
  | idle => exact absurd h (by simp [akTcpSocketPeerClosed])
  | ready hup err nval readable peek =>
      simp only [akTcpSocketPeerClosed] at h
      simp only [Poll.fails, Poll.seesEnd]
      cases hup <;> cases err <;> cases nval <;> cases readable <;> simp_all
      exact h.symm

theorem peerClosed_of_lost {poll : Poll} (h : poll.fails = true ∨ poll.hangsUp = true) :
    akTcpSocketPeerClosed poll = true := by
  cases poll with
  | failed => rfl
  | idle => simp [Poll.fails, Poll.hangsUp] at h
  | ready hup err nval readable peek =>
      cases hup <;> cases err <;> cases nval <;> cases readable <;>
        simp_all [Poll.fails, Poll.hangsUp, akTcpSocketPeerClosed]

/-- What the transport has in store once every byte the peer sent is read:
nothing yet, the peer's close (seen by the poll after `polls` more of them), or
a failing receive. -/
inductive Ending
  | waiting
  | closed (polls : Nat)
  | failed (error : String)
  deriving DecidableEq, Repr

/-- The poll after `polls` more of them finds the connection lost, whatever is
left to read. -/
structure Loss where
  polls : Nat
  poll : Poll
  lost : poll.fails = true ∨ poll.hangsUp = true
  deriving DecidableEq

structure Socket where
  pieces : List (List UInt8)
  nonempty : ∀ piece ∈ pieces, piece ≠ []
  ending : Ending
  loss : Option Loss
  deriving DecidableEq

structure TcpCtx where
  socket : Socket
  alive : Bool
  maxRecvBufferBytes : Nat
  bufferedBytes : Nat
  deriving DecidableEq

def Socket.unread (s : Socket) : List UInt8 := s.pieces.flatten

inductive Received
  | bytes (data : List UInt8) (socket : Socket)
  | failed (error : String)
  | blocked

def akTcpSocketRecv (s : Socket) (len : Nat) : Received :=
  match h : s.pieces with
  | [] =>
    match s.ending with
    | .waiting => .blocked
    | .closed _ => .bytes [] s
    | .failed error => .failed error
  | piece :: pieces =>
    if hl : piece.length ≤ len then
      .bytes piece { s with pieces, nonempty := fun q hq => s.nonempty q (by simp [h, hq]) }
    else
      .bytes (piece.take len)
        { s with
          pieces := piece.drop len :: pieces
          nonempty := by
            intro q hq
            rcases List.mem_cons.mp hq with rfl | hq
            · simpa using hl
            · exact s.nonempty q (by simp [h, hq]) }

/-- With bytes waiting the peek finds them; without, the close is reported from
the poll on at which it has arrived. -/
def Socket.look (s : Socket) : Poll × Socket :=
  match s.pieces, s.ending with
  | [], .closed 0 => (.ready false false false true .eof, s)
  | [], .closed (polls + 1) => (.idle, { s with ending := .closed polls })
  | [], _ => (.idle, s)
  | _ :: _, _ => (.ready false false false true .byte, s)

def Socket.poll (s : Socket) : Poll × Socket :=
  match s.loss with
  | none => s.look
  | some ⟨0, poll, _⟩ => (poll, s)
  | some ⟨polls + 1, poll, lost⟩ => (s.look.1, { s.look.2 with loss := some ⟨polls, poll, lost⟩ })

def akTcpIsAlive (ctx : TcpCtx) : Bool × TcpCtx :=
  if !ctx.alive then (false, ctx)
  else if akTcpSocketPeerClosed ctx.socket.poll.1 then
    (false, { ctx with alive := false, socket := ctx.socket.poll.2 })
  else (true, { ctx with socket := ctx.socket.poll.2 })

def tcpRecvChunkSize : Nat := 1024

inductive Outcome
  | buffer (data : List UInt8)
  | null (error : Option String)
  deriving DecidableEq, Repr

def findDelim (delim data : List UInt8) : Option Nat :=
  if delim.length ≤ data.length then
    (List.range (data.length - delim.length + 1)).find? fun i => (data.drop i).take delim.length == delim
  else none

def toRead (maxBytes limit buffered count : Nat) : Nat :=
  let n := if 0 < maxBytes ∧ maxBytes < count + tcpRecvChunkSize then
    (if maxBytes - count = 0 then 1 else maxBytes - count) else tcpRecvChunkSize
  if 0 < limit ∧ limit - buffered < n then limit - buffered else n

theorem toRead_pos {maxBytes limit buffered count : Nat} (hroom : ¬ (0 < limit ∧ limit ≤ buffered)) :
    0 < toRead maxBytes limit buffered count := by
  rw [toRead]
  split_ifs <;> simp only [tcpRecvChunkSize] at * <;> omega

def finishRecv (result : List UInt8) : Outcome :=
  if result.length = 0 then .null none else .buffer result

theorem akTcpSocketRecv_shorter {s s' : Socket} {len : Nat} {b : UInt8} {bs : List UInt8}
    (h : akTcpSocketRecv s len = .bytes (b :: bs) s') : s'.unread.length < s.unread.length := by
  rw [akTcpSocketRecv] at h
  split at h
  · split at h <;> cases h
  · next piece pieces hp =>
      have hpos : 0 < piece.length := List.length_pos_iff.mpr (s.nonempty piece (by simp [hp]))
      split_ifs at h with hl
      · cases h
        simp [Socket.unread, hp]
      · simp only [Received.bytes.injEq] at h
        obtain ⟨ht, rfl⟩ := h
        have hlen : (piece.take len).length = bs.length + 1 := by rw [ht, List.length_cons]
        rw [List.length_take] at hlen
        simp only [Socket.unread, hp, List.flatten_cons, List.length_append, List.length_drop]
        omega

theorem look_pieces (s : Socket) : s.look.2.pieces = s.pieces := by
  unfold Socket.look
  split <;> rfl

theorem poll_pieces (s : Socket) : s.poll.2.pieces = s.pieces := by
  unfold Socket.poll
  split
  · exact look_pieces s
  · rfl
  · exact look_pieces s

theorem akTcpIsAlive_pieces (ctx : TcpCtx) : (akTcpIsAlive ctx).2.socket.pieces = ctx.socket.pieces := by
  unfold akTcpIsAlive
  split_ifs
  · rfl
  · exact poll_pieces ctx.socket
  · exact poll_pieces ctx.socket

/-- The loop of `ak_tcp_recv_until`; `alloc` answers whether the buffer can grow
to hold a number of bytes. `none` is a receive that never returns. -/
def recvLoop (alloc : Nat → Bool) (delim : List UInt8) (maxBytes : Nat) (ctx : TcpCtx) (result : List UInt8) :
    Option (Outcome × TcpCtx) :=
  if !(akTcpIsAlive ctx).1 then some (finishRecv result, (akTcpIsAlive ctx).2)
  else
    let ctx' := (akTcpIsAlive ctx).2
    match findDelim delim result with
    | some i => some (.buffer (result.take (i + delim.length)), ctx')
    | none =>
      if 0 < maxBytes ∧ maxBytes ≤ result.length then
        some (.null (some "Maximum receive size exceeded before delimiter found"), ctx')
      else if !ctx'.alive then some (finishRecv result, ctx')
      else if 0 < ctx'.maxRecvBufferBytes ∧ ctx'.maxRecvBufferBytes ≤ ctx'.bufferedBytes then
        some (.null (some "Receive buffer full (backpressure limit)"), ctx')
      else
        let n := toRead maxBytes ctx'.maxRecvBufferBytes ctx'.bufferedBytes result.length
        match _h : akTcpSocketRecv ctx'.socket n with
        | .blocked => none
        | .failed error => some (.null (some error), ctx')
        | .bytes [] socket => some (finishRecv result, { ctx' with alive := false, socket })
        | .bytes (b :: bs) socket =>
          if !alloc (result.length + (b :: bs).length) then
            some (.null (some "Buffer allocation failed"), { ctx' with socket })
          else
            recvLoop alloc delim maxBytes
              { ctx' with socket, bufferedBytes := ctx'.bufferedBytes + (b :: bs).length } (result ++ b :: bs)
  termination_by ctx.socket.unread.length
  decreasing_by
    have hlt := akTcpSocketRecv_shorter _h
    rwa [Socket.unread, Socket.unread, akTcpIsAlive_pieces] at hlt

def akTcpRecvUntil (alloc : Nat → Bool) (ctx : TcpCtx) (delim : List UInt8) (maxBytes : Nat) :
    Option (Outcome × TcpCtx) :=
  if delim.length = 0 then some (.null (some "Empty delimiter"), ctx)
  else if !alloc 256 then some (.null (some "Buffer allocation failed"), ctx)
  else recvLoop alloc delim maxBytes ctx []

end Ak24.TcpModel
