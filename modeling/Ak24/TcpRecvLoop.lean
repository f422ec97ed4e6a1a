import Ak24.TcpFraming

namespace Ak24.TcpRecvLoop

open TcpModel Records TcpFraming

section Poll

variable {ctx : TcpCtx}

def polled (ctx : TcpCtx) : TcpCtx := (akTcpIsAlive ctx).2

@[simp] theorem polled_pieces (ctx : TcpCtx) : (polled ctx).socket.pieces = ctx.socket.pieces := akTcpIsAlive_pieces ctx

@[simp] theorem polled_unread (ctx : TcpCtx) : (polled ctx).socket.unread = ctx.socket.unread := by
  rw [Socket.unread, Socket.unread, polled_pieces]

@[simp] theorem polled_limit (ctx : TcpCtx) : (polled ctx).maxRecvBufferBytes = ctx.maxRecvBufferBytes := by
  rw [polled, akTcpIsAlive]
  split_ifs <;> rfl

@[simp] theorem polled_buffered (ctx : TcpCtx) : (polled ctx).bufferedBytes = ctx.bufferedBytes := by
  rw [polled, akTcpIsAlive]
  split_ifs <;> rfl

theorem alive_of_poll (h : (akTcpIsAlive ctx).1 = true) : ctx.alive = true ∧ (polled ctx).alive = true := by
  rw [polled]
  rw [akTcpIsAlive] at h ⊢
  split_ifs at h ⊢ with ha
  have halive : ctx.alive = true := by simpa using ha
  exact ⟨halive, halive⟩

theorem look_closed (s : Socket) :
    akTcpSocketPeerClosed s.look.1 = true ↔ s.pieces = [] ∧ s.ending = .closed 0 := by
  rw [Socket.look]
  split
  · next hp he => simp [hp, he, akTcpSocketPeerClosed]
  · next hp he => simp [he, akTcpSocketPeerClosed]
  · next hp h _ => simpa [hp, akTcpSocketPeerClosed] using h
  · next hp => simp [hp, akTcpSocketPeerClosed]

theorem look_ending (s : Socket) : s.look.2.ending = s.ending ∨
    ∃ k, s.ending = .closed (k + 1) ∧ s.look.2.ending = .closed k ∧ s.pieces = [] := by
  rw [Socket.look]
  split
  · exact Or.inl rfl
  · next k hp he => exact Or.inr ⟨k, he, rfl, hp⟩
  · exact Or.inl rfl
  · exact Or.inl rfl

/-- The poll misses a close only after all bytes are read and before it is due. -/
theorem poll_closed (ha : ctx.alive = true) (hkept : ctx.socket.loss = none) :
    (akTcpIsAlive ctx).1 = false ↔ ctx.socket.pieces = [] ∧ ctx.socket.ending = .closed 0 := by
  rw [akTcpIsAlive_kept ha hkept, ← look_closed]
  split_ifs with h <;> simp [h]

theorem polled_waiting (ha : ctx.alive = true) (hkept : ctx.socket.loss = none) (hp : ctx.socket.pieces ≠ []) :
    polled ctx = ctx := by
  rw [polled, akTcpIsAlive_waiting ha hkept hp]

theorem polled_ending (hl : (akTcpIsAlive ctx).1 = true) :
    (polled ctx).socket.ending = ctx.socket.ending ∨
      ∃ k, ctx.socket.ending = .closed (k + 1) ∧ (polled ctx).socket.ending = .closed k ∧ ctx.socket.pieces = [] := by
  rw [polled]
  rw [akTcpIsAlive] at hl ⊢
  split_ifs at hl ⊢
  rw [Socket.poll]
  split
  · exact look_ending ctx.socket
  · exact Or.inl rfl
  · exact look_ending ctx.socket

theorem polled_closed {k : Nat} (hl : (akTcpIsAlive ctx).1 = true) (he : ctx.socket.ending = .closed k) :
    ∃ j, (polled ctx).socket.ending = .closed j := by
  rcases polled_ending hl with hsame | ⟨j, -, hj, -⟩
  · exact ⟨k, hsame.trans he⟩
  · exact ⟨j, hj⟩

end Poll

theorem readOf_recv {s s' : Socket} {n : Nat} {data : List UInt8} (hne : data ≠ [])
    (h : akTcpSocketRecv s n = .bytes data s') :
    ReadOf n s.pieces data s'.pieces ∧ s'.ending = s.ending ∧ s'.loss = s.loss := by
  rw [akTcpSocketRecv] at h
  split at h
  · split at h
    · cases h
    · cases h
      exact absurd rfl hne
    · cases h
  · next piece pieces hp =>
      split_ifs at h with hl
      · cases h
        refine ⟨?_, rfl, rfl⟩
        show ReadOf n s.pieces data pieces
        rw [hp]
        exact .whole data pieces hl
      · cases h
        refine ⟨?_, rfl, rfl⟩
        show ReadOf n s.pieces (piece.take n) (piece.drop n :: pieces)
        rw [hp]
        exact .part piece pieces (not_le.mp hl)

theorem recv_nil {s s' : Socket} {n : Nat} (hn : 0 < n) (h : akTcpSocketRecv s n = .bytes [] s') :
    s.pieces = [] ∧ s' = s ∧ ∃ k, s.ending = .closed k := by
  rw [akTcpSocketRecv] at h
  split at h
  · next hp =>
      split at h
      · cases h
      · next k he =>
          cases h
          exact ⟨hp, rfl, k, he⟩
      · cases h
  · next piece pieces hp =>
      have hpiece := s.nonempty piece (by simp [hp])
      have hpos := List.length_pos_iff.mpr hpiece
      split_ifs at h with hl
      · simp only [Received.bytes.injEq] at h
        exact absurd h.1 hpiece
      · simp only [Received.bytes.injEq] at h
        have := congrArg List.length h.1
        rw [List.length_take, List.length_nil] at this
        omega

theorem recv_other {s : Socket} {n : Nat} :
    (akTcpSocketRecv s n = .blocked → s.ending = .waiting) ∧
      ∀ error, akTcpSocketRecv s n = .failed error → s.ending = .failed error := by
  rw [akTcpSocketRecv]
  split
  · split
    · next he => exact ⟨fun _ => he, by simp⟩
    · exact ⟨by simp, by simp⟩
    · next e he =>
        refine ⟨by simp, fun error h => ?_⟩
        cases h
        exact he
  · split_ifs <;> exact ⟨by simp, by simp⟩

structure Reading (delim : List UInt8) (maxBytes : Nat) (ctx : TcpCtx) (acc : List UInt8) : Prop where
  live : (akTcpIsAlive ctx).1 = true
  unfound : findDelim delim acc = none
  short : ¬ (0 < maxBytes ∧ maxBytes ≤ acc.length)
  room : ¬ (0 < ctx.maxRecvBufferBytes ∧ ctx.maxRecvBufferBytes ≤ ctx.bufferedBytes)

def asks (maxBytes : Nat) (ctx : TcpCtx) (acc : List UInt8) : Nat :=
  toRead maxBytes ctx.maxRecvBufferBytes ctx.bufferedBytes acc.length

section Asks

variable {delim : List UInt8} {maxBytes : Nat} {ctx : TcpCtx} {acc : List UInt8}

theorem asks_le (maxBytes : Nat) (ctx : TcpCtx) (acc : List UInt8) : asks maxBytes ctx acc ≤ tcpRecvChunkSize := by
  rw [asks, toRead]
  split_ifs <;> simp only [tcpRecvChunkSize] at * <;> omega

theorem asks_pos (hr : Reading delim maxBytes ctx acc) : 0 < asks maxBytes ctx acc :=
  toRead_pos hr.room

theorem asks_max (hr : Reading delim maxBytes ctx acc) (hm : 0 < maxBytes) :
    acc.length + asks maxBytes ctx acc ≤ maxBytes := by
  have hshort := hr.short
  rw [asks, toRead]
  split_ifs <;> simp only [tcpRecvChunkSize] at * <;> omega

theorem asks_budget (hr : Reading delim maxBytes ctx acc) (hb : 0 < ctx.maxRecvBufferBytes) :
    ctx.bufferedBytes + asks maxBytes ctx acc ≤ ctx.maxRecvBufferBytes := by
  have hroom := hr.room
  rw [asks, toRead]
  split_ifs <;> omega

end Asks

inductive Pass (alloc : Nat → Bool) (delim : List UInt8) (maxBytes : Nat) (ctx : TcpCtx) (acc : List UInt8) :
    Option (Outcome × TcpCtx) → Prop
  | dead (h : (akTcpIsAlive ctx).1 = false) : Pass alloc delim maxBytes ctx acc (some (finishRecv acc, polled ctx))
  | found (i : Nat) (hl : (akTcpIsAlive ctx).1 = true) (hf : findDelim delim acc = some i) :
    Pass alloc delim maxBytes ctx acc (some (.buffer (acc.take (i + delim.length)), polled ctx))
  | oversize (hl : (akTcpIsAlive ctx).1 = true) (hf : findDelim delim acc = none)
    (hm : 0 < maxBytes ∧ maxBytes ≤ acc.length) :
    Pass alloc delim maxBytes ctx acc
      (some (.null (some "Maximum receive size exceeded before delimiter found"), polled ctx))
  | full (hl : (akTcpIsAlive ctx).1 = true) (hf : findDelim delim acc = none)
    (hm : ¬ (0 < maxBytes ∧ maxBytes ≤ acc.length))
    (hb : 0 < ctx.maxRecvBufferBytes ∧ ctx.maxRecvBufferBytes ≤ ctx.bufferedBytes) :
    Pass alloc delim maxBytes ctx acc (some (.null (some "Receive buffer full (backpressure limit)"), polled ctx))
  | blocked (hr : Reading delim maxBytes ctx acc)
    (h : akTcpSocketRecv (polled ctx).socket (asks maxBytes ctx acc) = .blocked) :
    Pass alloc delim maxBytes ctx acc none
  | failed (error : String) (hr : Reading delim maxBytes ctx acc)
    (h : akTcpSocketRecv (polled ctx).socket (asks maxBytes ctx acc) = .failed error) :
    Pass alloc delim maxBytes ctx acc (some (.null (some error), polled ctx))
  | ended (socket : Socket) (hr : Reading delim maxBytes ctx acc)
    (h : akTcpSocketRecv (polled ctx).socket (asks maxBytes ctx acc) = .bytes [] socket) :
    Pass alloc delim maxBytes ctx acc (some (finishRecv acc, { ctx with alive := false, socket }))
  | refused (data : List UInt8) (socket : Socket) (hr : Reading delim maxBytes ctx acc) (hne : data ≠ [])
    (h : akTcpSocketRecv (polled ctx).socket (asks maxBytes ctx acc) = .bytes data socket)
    (ha : alloc (acc.length + data.length) = false) :
    Pass alloc delim maxBytes ctx acc (some (.null (some "Buffer allocation failed"), { ctx with socket }))
  | again (data : List UInt8) (socket : Socket) (hr : Reading delim maxBytes ctx acc) (hne : data ≠ [])
    (h : akTcpSocketRecv (polled ctx).socket (asks maxBytes ctx acc) = .bytes data socket)
    (ha : alloc (acc.length + data.length) = true) :
    Pass alloc delim maxBytes ctx acc
      (recvLoop alloc delim maxBytes (after ctx socket data.length) (acc ++ data))

theorem recvLoop_pass (alloc : Nat → Bool) (delim : List UInt8) (maxBytes : Nat) (ctx : TcpCtx) (acc : List UInt8) :
    Pass alloc delim maxBytes ctx acc (recvLoop alloc delim maxBytes ctx acc) := by
  rw [recvLoop]
  cases hl : (akTcpIsAlive ctx).1 with
  | false => exact .dead hl
  | true =>
      rw [if_neg (by simp)]
      cases hf : findDelim delim acc with
      | some i => exact .found i hl hf
      | none =>
          simp only
          by_cases hm : 0 < maxBytes ∧ maxBytes ≤ acc.length
          · rw [if_pos hm]
            exact .oversize hl hf hm
          · obtain ⟨hctx, halive⟩ := alive_of_poll hl
            have hsame : (akTcpIsAlive ctx).2.alive = ctx.alive := halive.trans hctx.symm
            have hlimit : (akTcpIsAlive ctx).2.maxRecvBufferBytes = ctx.maxRecvBufferBytes := polled_limit ctx
            have hbuffered : (akTcpIsAlive ctx).2.bufferedBytes = ctx.bufferedBytes := polled_buffered ctx
            rw [if_neg hm, hsame, hlimit, hbuffered, if_neg (by simp [hctx])]
            by_cases hb : 0 < ctx.maxRecvBufferBytes ∧ ctx.maxRecvBufferBytes ≤ ctx.bufferedBytes
            · rw [if_pos hb]
              exact .full hl hf hm hb
            · have hr : Reading delim maxBytes ctx acc := ⟨hl, hf, hm, hb⟩
              rw [if_neg hb]
              split
              · next h => exact .blocked hr h
              · next error h => exact .failed error hr h
              · next socket h => exact .ended socket hr h
              · next b bs socket h =>
                  cases ha : alloc (acc.length + (b :: bs).length) with
                  | false => exact .refused (b :: bs) socket hr (List.cons_ne_nil b bs) h ha
                  | true =>
                      rw [if_neg (by simp)]
                      exact .again (b :: bs) socket hr (List.cons_ne_nil b bs) h ha

end Ak24.TcpRecvLoop
