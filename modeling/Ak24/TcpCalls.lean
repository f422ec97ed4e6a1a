import Ak24.TcpModel
import Ak24.Transition

namespace Ak24.TcpCalls

open TcpModel Transition

/-- The fields of an `ak_tcp_ctx_t` that its calls read and write, with the
descriptor and the SSL object by their numbers. -/
structure Conn where
  alive : Bool
  fd : Option Nat
  ssl : Option Nat
  maxRecvBufferBytes : Nat
  bufferedBytes : Nat
  deriving DecidableEq, Repr

def akTcpCtxNew (fd : Nat) : Conn := ⟨true, some fd, none, 0, 0⟩

inductive Returned
  | count (n : Int) (error : Option String)
  | buffer (result : Outcome)
  deriving DecidableEq, Repr

/-- Where a call is between two of its steps. A critical section and a socket
call are a step each; what a call has copied out of the context it carries. -/
inductive CallPhase
  | send (toSend : Nat)
  | sendSsl (fd : Option Nat) (toSend : Nat)
  | sending (fd ssl : Option Nat) (toSend sent : Nat)
  | sendClosed
  | recv (maxBytes : Nat)
  | recvSsl (fd : Option Nat) (toRecv : Nat)
  | receiving (fd ssl : Option Nat) (toRecv : Nat)
  | recvClosed
  | recvCount (received : Nat)
  | recvUntil (delim : List UInt8) (maxBytes : Nat)
  | untilAlive (delim : List UInt8) (maxBytes : Nat) (result : List UInt8)
  | untilCopy (delim : List UInt8) (maxBytes : Nat) (result : List UInt8)
  | untilReceiving (fd ssl : Option Nat) (toRecv : Nat) (delim : List UInt8) (maxBytes : Nat) (result : List UInt8)
  | untilClosed (result : List UInt8)
  | untilCount (received : Nat) (delim : List UInt8) (maxBytes : Nat) (result : List UInt8)
  | returned (r : Returned)
  deriving DecidableEq, Repr

inductive Event
  | touched
  | usedFd (fd : Nat)
  | usedSsl (ssl : Nat)
  | closedFd (fd : Nat)
  | freedSsl (ssl : Nat)
  deriving DecidableEq, Repr

/-- The answers of the system to one step: what a send or a receive does
(`none`: it fails), what the poll for the peer's close finds, whether a buffer
can grow. -/
structure Reply where
  sent : Option Nat
  received : Option (List UInt8)
  error : String
  peerClosed : Bool
  alloc : Bool
  deriving DecidableEq, Repr

def transferEvents (fd ssl : Option Nat) : List Event :=
  match ssl with
  | some ssl => [.usedSsl ssl]
  | none => fd.toList.map .usedFd

def refuse (n : Int) (error : String) : CallPhase := .returned (.count n (some error))

def recvSize (c : Conn) (maxBytes : Nat) : Nat :=
  let toRecv := if maxBytes < tcpRecvChunkSize then maxBytes else tcpRecvChunkSize
  if 0 < c.maxRecvBufferBytes ∧ c.maxRecvBufferBytes - c.bufferedBytes < toRecv then
    c.maxRecvBufferBytes - c.bufferedBytes
  else toRecv

def finishUntil (result : List UInt8) : CallPhase := .returned (.buffer (finishRecv result))

def failUntil (error : String) : CallPhase := .returned (.buffer (.null (some error)))

def akTcpSend (c : Conn) (reply : Reply) : CallPhase → Option (CallPhase × Conn × List Event)
  | .send toSend =>
    if !c.alive then some (refuse (-1) "Connection closed", c, [.touched])
    else some (.sendSsl c.fd toSend, c, [.touched])
  | .sendSsl fd toSend => some (.sending fd c.ssl toSend 0, c, [.touched])
  | .sending fd ssl toSend sent =>
    if sent < toSend then
      match reply.sent with
      | none => some (refuse (-1) reply.error, c, transferEvents fd ssl)
      | some 0 => some (.sendClosed, c, transferEvents fd ssl)
      | some (k + 1) => some (.sending fd ssl toSend (min (sent + (k + 1)) toSend), c, transferEvents fd ssl)
    else some (.returned (.count sent none), c, [])
  | .sendClosed => some (refuse (-1) "Connection closed by peer", { c with alive := false }, [.touched])
  | _ => none

def akTcpRecv (c : Conn) (reply : Reply) : CallPhase → Option (CallPhase × Conn × List Event)
  | .recv maxBytes =>
    if !c.alive then some (refuse (-1) "Connection closed", c, [.touched])
    else if 0 < c.maxRecvBufferBytes ∧ c.maxRecvBufferBytes ≤ c.bufferedBytes then
      some (refuse (-2) "Receive buffer full (backpressure limit)", c, [.touched])
    else some (.recvSsl c.fd (recvSize c maxBytes), c, [.touched])
  | .recvSsl fd toRecv => some (.receiving fd c.ssl toRecv, c, [.touched])
  | .receiving fd ssl toRecv =>
    match reply.received with
    | none => some (refuse (-1) reply.error, c, transferEvents fd ssl)
    | some data =>
      if (data.take toRecv).length = 0 then some (.recvClosed, c, transferEvents fd ssl)
      else if reply.alloc then some (.recvCount (data.take toRecv).length, c, transferEvents fd ssl)
      else some (refuse (-1) "Buffer allocation failed", c, transferEvents fd ssl)
  | .recvClosed => some (.returned (.count 0 none), { c with alive := false }, [.touched])
  | .recvCount received =>
    some (.returned (.count received none), { c with bufferedBytes := c.bufferedBytes + received }, [.touched])
  | _ => none

/-- The whole of `ak_tcp_is_alive` is one critical section, in which its poll
peeks at the descriptor. -/
def akTcpIsAlive (c : Conn) (peerClosed : Bool) : Bool × Conn × List Event :=
  match c.alive, c.fd with
  | true, some fd =>
    if peerClosed then (false, { c with alive := false }, [.touched, .usedFd fd])
    else (true, c, [.touched, .usedFd fd])
  | _, _ => (false, c, [.touched])

def akTcpRecvUntil (c : Conn) (reply : Reply) : CallPhase → Option (CallPhase × Conn × List Event)
  | .recvUntil delim maxBytes =>
    if delim.length = 0 then some (failUntil "Empty delimiter", c, [])
    else if !reply.alloc then some (failUntil "Buffer allocation failed", c, [])
    else some (.untilAlive delim maxBytes [], c, [])
  | .untilAlive delim maxBytes result =>
    let (alive, c, events) := akTcpIsAlive c reply.peerClosed
    if !alive then some (finishUntil result, c, events)
    else
      match findDelim delim result with
      | some i => some (.returned (.buffer (.buffer (result.take (i + delim.length)))), c, events)
      | none =>
        if 0 < maxBytes ∧ maxBytes ≤ result.length then
          some (failUntil "Maximum receive size exceeded before delimiter found", c, events)
        else some (.untilCopy delim maxBytes result, c, events)
  | .untilCopy delim maxBytes result =>
    if !c.alive then some (finishUntil result, c, [.touched])
    else if 0 < c.maxRecvBufferBytes ∧ c.maxRecvBufferBytes ≤ c.bufferedBytes then
      some (failUntil "Receive buffer full (backpressure limit)", c, [.touched])
    else
      some (.untilReceiving c.fd c.ssl (toRead maxBytes c.maxRecvBufferBytes c.bufferedBytes result.length)
        delim maxBytes result, c, [.touched])
  | .untilReceiving fd ssl toRecv delim maxBytes result =>
    match reply.received with
    | none => some (failUntil reply.error, c, transferEvents fd ssl)
    | some data =>
      if (data.take toRecv).length = 0 then some (.untilClosed result, c, transferEvents fd ssl)
      else if reply.alloc then
        some (.untilCount (data.take toRecv).length delim maxBytes (result ++ data.take toRecv), c,
          transferEvents fd ssl)
      else some (failUntil "Buffer allocation failed", c, transferEvents fd ssl)
  | .untilClosed result => some (finishUntil result, { c with alive := false }, [.touched])
  | .untilCount received delim maxBytes result =>
    some (.untilAlive delim maxBytes result, { c with bufferedBytes := c.bufferedBytes + received }, [.touched])
  | _ => none

def callStep (c : Conn) (reply : Reply) (p : CallPhase) : Option (CallPhase × Conn × List Event) :=
  match p with
  | .send _ | .sendSsl .. | .sending .. | .sendClosed => akTcpSend c reply p
  | .recv _ | .recvSsl .. | .receiving .. | .recvClosed | .recvCount _ => akTcpRecv c reply p
  | .recvUntil .. | .untilAlive .. | .untilCopy .. | .untilReceiving .. | .untilClosed _ | .untilCount .. =>
    akTcpRecvUntil c reply p
  | .returned _ => none

def releaseSsl (ssl : Option Nat) : List Event :=
  match ssl with
  | some ssl => [.usedSsl ssl, .freedSsl ssl]
  | none => []

def akTcpClose (c : Conn) : Conn × List Event :=
  if c.alive then
    ({ c with alive := false, ssl := none, fd := none }, releaseSsl c.ssl ++ c.fd.toList.map .closedFd)
  else (c, [])

def akTcpKill (c : Conn) : Conn × List Event := akTcpClose c

def akTcpAbort (c : Conn) : Conn × List Event := akTcpClose c

def akTcpShutdown (c : Conn) : Conn × List Event :=
  match c.alive, c.fd with
  | true, some fd => ({ c with alive := false }, c.ssl.toList.map .usedSsl ++ [.usedFd fd])
  | _, _ => (c, [])

def akTcpConsumeBytes (c : Conn) (bytes : Nat) : Conn :=
  if c.bufferedBytes < bytes then { c with bufferedBytes := 0 }
  else { c with bufferedBytes := c.bufferedBytes - bytes }

def akTcpCtxFree (c : Conn) : List Event := releaseSsl c.ssl ++ c.fd.toList.map .closedFd

def begins : CallPhase → Bool
  | .send _ | .recv _ | .recvUntil _ _ => true
  | _ => false

end Ak24.TcpCalls
