import Ak24.TcpModel
import Ak24.Records

namespace Ak24.TcpFraming

open TcpModel Records

/-- A receive of the call ends `n` bytes into the pieces: at the end of a piece,
or a whole number of full reads into one. -/
def ReadEndsAt : List (List UInt8) → Nat → Prop
  | [], _ => False
  | piece :: pieces, n =>
    if n ≤ piece.length then n = piece.length ∨ tcpRecvChunkSize ∣ n else ReadEndsAt pieces (n - piece.length)

/-- Every record ends where a receive ends, or has exactly `maxBytes` bytes. -/
def Aligned (maxBytes : Nat) : List (List UInt8) → List (List UInt8) → Prop
  | _, [] => True
  | pieces, r :: rs =>
    (r.length = maxBytes ∨ ReadEndsAt pieces r.length) ∧ Aligned maxBytes (skip pieces r.length) rs

/-- Consecutive calls return the given records and take exactly their bytes off
the stream. -/
def Lossless (alloc : Nat → Bool) (delim : List UInt8) (maxBytes : Nat) : TcpCtx → List (List UInt8) → Prop
  | _, [] => True
  | ctx, r :: rs => ∃ ctx', akTcpRecvUntil alloc ctx delim maxBytes = some (.buffer r, ctx') ∧
    ctx.socket.unread = r ++ ctx'.socket.unread ∧ Lossless alloc delim maxBytes ctx' rs

/-- The connection is open as long as there is something to read, and no error
will end it. -/
structure Ready (ctx : TcpCtx) : Prop where
  alive : ctx.alive = true ∨ ctx.socket.pieces = []
  kept : ctx.socket.loss = none

/-- The backpressure limit is off, or large enough for all that is to come. -/
def Room (ctx : TcpCtx) : Prop :=
  ctx.maxRecvBufferBytes = 0 ∨ ctx.bufferedBytes + ctx.socket.unread.length ≤ ctx.maxRecvBufferBytes

section Delimiter

variable {delim data : List UInt8}

theorem suffix_take_iff {i : Nat} (h : i + delim.length ≤ data.length) :
    delim <:+ data.take (i + delim.length) ↔ (data.drop i).take delim.length = delim := by
  rw [List.suffix_iff_eq_drop, List.length_take, Nat.min_eq_left h, Nat.add_sub_cancel, List.drop_take,
    Nat.add_sub_cancel_left]
  exact eq_comm

theorem findDelim_some {i : Nat} (h : findDelim delim data = some i) :
    IsRecord delim data (i + delim.length) := by
  rw [findDelim] at h
  split_ifs at h with hl
  rw [List.find?_range_eq_some] at h
  obtain ⟨he, hr, hf⟩ := h
  have hi : i + delim.length ≤ data.length := by
    have := List.mem_range.mp hr
    omega
  refine ⟨hi, (suffix_take_iff hi).mpr (eq_of_beq he), ?_⟩
  intro m hm hs
  have hlen := hs.length_le
  rw [List.length_take] at hlen
  obtain ⟨j, rfl⟩ : ∃ j, m = j + delim.length := ⟨m - delim.length, by omega⟩
  have := hf j (by omega)
  simp [(suffix_take_iff (by omega)).mp hs] at this

theorem findDelim_none (h : findDelim delim data = none) (n : Nat) : ¬ IsRecord delim data n := by
  intro hn
  have hle := hn.length_le
  have hlen := hn.le_length
  rw [findDelim, if_pos (by omega), List.find?_eq_none] at h
  obtain ⟨j, rfl⟩ : ∃ j, n = j + delim.length := ⟨n - delim.length, by omega⟩
  have := h j (List.mem_range.mpr (by omega))
  simp [(suffix_take_iff hn.le_length).mp hn.ends] at this

end Delimiter

section Socket

variable {ctx : TcpCtx}

theorem akTcpIsAlive_kept (ha : ctx.alive = true) (hkept : ctx.socket.loss = none) : akTcpIsAlive ctx =
    if akTcpSocketPeerClosed ctx.socket.look.1 then (false, { ctx with alive := false, socket := ctx.socket.look.2 })
    else (true, { ctx with socket := ctx.socket.look.2 }) := by
  rw [akTcpIsAlive, ha, Socket.poll, hkept]
  rfl

theorem akTcpIsAlive_waiting (ha : ctx.alive = true) (hkept : ctx.socket.loss = none) (hp : ctx.socket.pieces ≠ []) :
    akTcpIsAlive ctx = (true, ctx) := by
  obtain ⟨piece, pieces, hpp⟩ := List.exists_cons_of_ne_nil hp
  have hlook : ctx.socket.look = (.ready false false false true .byte, ctx.socket) := by simp [Socket.look, hpp]
  rw [akTcpIsAlive_kept ha hkept, hlook]
  rfl

theorem look_loss (s : Socket) : s.look.2.loss = s.loss := by
  unfold Socket.look
  split <;> rfl

theorem akTcpIsAlive_loss (hkept : ctx.socket.loss = none) : (akTcpIsAlive ctx).2.socket.loss = none := by
  have hlook : ctx.socket.poll.2.loss = none := by rw [Socket.poll, hkept, look_loss, hkept]
  rw [akTcpIsAlive]
  split_ifs
  · exact hkept
  · exact hlook
  · exact hlook

theorem akTcpSocketRecv_whole {s : Socket} {piece : List UInt8} {pieces : List (List UInt8)} {n : Nat}
    (hp : s.pieces = piece :: pieces) (hn : piece.length ≤ n) :
    ∃ s', akTcpSocketRecv s n = .bytes piece s' ∧ s'.pieces = pieces ∧ s'.loss = s.loss := by
  rw [akTcpSocketRecv]
  split
  · next h => simp [hp] at h
  · next h =>
      obtain ⟨rfl, rfl⟩ := List.cons.inj (hp.symm.trans h)
      rw [dif_pos hn]
      exact ⟨_, rfl, rfl, rfl⟩

theorem akTcpSocketRecv_part {s : Socket} {piece : List UInt8} {pieces : List (List UInt8)} {n : Nat}
    (hp : s.pieces = piece :: pieces) (hn : n < piece.length) :
    ∃ s', akTcpSocketRecv s n = .bytes (piece.take n) s' ∧ s'.pieces = piece.drop n :: pieces ∧ s'.loss = s.loss := by
  rw [akTcpSocketRecv]
  split
  · next h => simp [hp] at h
  · next h =>
      obtain ⟨rfl, rfl⟩ := List.cons.inj (hp.symm.trans h)
      rw [dif_neg (by omega)]
      exact ⟨_, rfl, rfl, rfl⟩

/-- What a receive asks for when the backpressure limit does not bind. -/
def request (maxBytes count : Nat) : Nat :=
  if 0 < maxBytes ∧ maxBytes < count + tcpRecvChunkSize then maxBytes - count else tcpRecvChunkSize

theorem request_pos {maxBytes count : Nat} (h : maxBytes = 0 ∨ count < maxBytes) : 0 < request maxBytes count := by
  rw [request]
  split_ifs
  · omega
  · norm_num [tcpRecvChunkSize]

inductive ReadOf (req : Nat) : List (List UInt8) → List UInt8 → List (List UInt8) → Prop
  | whole (piece : List UInt8) (pieces : List (List UInt8)) (h : piece.length ≤ req) :
    ReadOf req (piece :: pieces) piece pieces
  | part (piece : List UInt8) (pieces : List (List UInt8)) (h : req < piece.length) :
    ReadOf req (piece :: pieces) (piece.take req) (piece.drop req :: pieces)

section Reads

variable {pieces pieces' : List (List UInt8)} {data : List UInt8} {req n maxBytes count : Nat}

theorem ReadOf.flatten (h : ReadOf req pieces data pieces') : pieces.flatten = data ++ pieces'.flatten := by
  cases h with
  | whole piece pieces h => rfl
  | part piece pieces h => simp [← List.append_assoc]

theorem ReadOf.length_le (h : ReadOf req pieces data pieces') : data.length ≤ req := by
  cases h with
  | whole piece pieces h => exact h
  | part piece pieces h => rw [List.length_take]; exact Nat.min_le_left _ _

theorem ReadOf.skip (h : ReadOf req pieces data pieces') (hne : ∀ piece ∈ pieces', piece ≠ []) :
    pieces' = Records.skip pieces data.length := by
  cases h with
  | whole piece pieces h => rw [Records.skip, if_pos le_rfl, Nat.sub_self, skip_zero hne]
  | part piece pieces h => rw [Records.skip, List.length_take, Nat.min_eq_left h.le, if_neg (by omega)]

theorem ReadOf.more (h : ReadOf (request maxBytes count) pieces data pieces')
    (hm : maxBytes = 0 ∨ count + n ≤ maxBytes) (hn : data.length < n) :
    (ReadEndsAt pieces n ↔ ReadEndsAt pieces' (n - data.length)) ∧
      Records.skip pieces n = Records.skip pieces' (n - data.length) := by
  cases h with
  | whole piece pieces h =>
      rw [ReadEndsAt, Records.skip, if_neg (by omega), if_pos hn.le]
      exact ⟨Iff.rfl, rfl⟩
  | part piece pieces h =>
      have hlen : (piece.take (request maxBytes count)).length = request maxBytes count := by
        rw [List.length_take, Nat.min_eq_left h.le]
      have hreq : request maxBytes count = tcpRecvChunkSize := by
        rw [hlen] at hn
        rw [request] at hn ⊢
        split_ifs at hn ⊢ with hc
        · omega
        · rfl
      rw [hlen, hreq] at hn ⊢
      rw [hreq] at h
      have hdvd : tcpRecvChunkSize ∣ n ↔ tcpRecvChunkSize ∣ n - tcpRecvChunkSize :=
        (Nat.dvd_sub_iff_left hn.le dvd_rfl).symm
      rw [ReadEndsAt, ReadEndsAt, Records.skip, Records.skip, List.length_drop, List.drop_drop, hdvd]
      constructor
      · split_ifs with h1 h2 h2
        · have : n = piece.length ↔ n - tcpRecvChunkSize = piece.length - tcpRecvChunkSize := by omega
          rw [this]
        · omega
        · omega
        · rw [show n - tcpRecvChunkSize - (piece.length - tcpRecvChunkSize) = n - piece.length by omega]
      · split_ifs with h1 h2 h2
        · rw [show n - tcpRecvChunkSize - (piece.length - tcpRecvChunkSize) = n - piece.length by omega]
        · omega
        · omega
        · rw [show tcpRecvChunkSize + (n - tcpRecvChunkSize) = n by omega]

theorem ReadOf.last (h : ReadOf (request maxBytes count) pieces data pieces')
    (hm : maxBytes = 0 ∨ count + n ≤ maxBytes) (hpos : 0 < n) (hn : n ≤ data.length) :
    count + n = maxBytes ∨ ReadEndsAt pieces n ↔ data.length = n := by
  have hsmall : request maxBytes count ≤ tcpRecvChunkSize ∧
      (request maxBytes count = tcpRecvChunkSize ∨ count + request maxBytes count = maxBytes) ∧
      (maxBytes = 0 ∨ count + request maxBytes count ≤ maxBytes) := by
    rw [request]
    split_ifs <;> omega
  have hdvd : n < tcpRecvChunkSize → ¬ tcpRecvChunkSize ∣ n := fun hlt hd => by
    have := Nat.le_of_dvd hpos hd
    omega
  obtain ⟨hle, hreq, hcap⟩ := hsmall
  cases h with
  | whole piece pieces h =>
      rw [ReadEndsAt, if_pos hn]
      constructor
      · rintro (he | he | he)
        · omega
        · exact he.symm
        · by_contra hne
          exact hdvd (by omega) he
      · intro he
        exact Or.inr (Or.inl he.symm)
  | part piece pieces h =>
      rw [List.length_take, Nat.min_eq_left h.le] at hn ⊢
      rw [ReadEndsAt, if_pos (by omega)]
      constructor
      · rintro (he | he | he)
        · omega
        · omega
        · by_contra hne
          exact hdvd (by omega) he
      · intro he
        rcases hreq with hr | hr
        · refine Or.inr (Or.inr ?_)
          rw [← he, hr]
        · exact Or.inl (by omega)

end Reads

theorem toRead_cases {maxBytes count : Nat} (hm : maxBytes = 0 ∨ count < maxBytes) (hr : Room ctx) :
    toRead maxBytes ctx.maxRecvBufferBytes ctx.bufferedBytes count = request maxBytes count ∨
      ctx.socket.unread.length ≤ toRead maxBytes ctx.maxRecvBufferBytes ctx.bufferedBytes count ∧
        toRead maxBytes ctx.maxRecvBufferBytes ctx.bufferedBytes count ≤ request maxBytes count := by
  have he : (if 0 < maxBytes ∧ maxBytes < count + tcpRecvChunkSize then
      (if maxBytes - count = 0 then 1 else maxBytes - count) else tcpRecvChunkSize) = request maxBytes count := by
    rw [request]
    split_ifs <;> omega
  rw [toRead, he]
  rcases hr with h0 | hr
  · exact Or.inl (if_neg (by omega))
  · split_ifs with hl
    · exact Or.inr ⟨by omega, hl.2.le⟩
    · exact Or.inl rfl

end Socket

section Loop

variable {alloc : Nat → Bool} {delim : List UInt8} {maxBytes : Nat} {ctx : TcpCtx} {acc : List UInt8}

def after (ctx : TcpCtx) (socket : Socket) (n : Nat) : TcpCtx :=
  { ctx with socket, bufferedBytes := ctx.bufferedBytes + n }

theorem recvLoop_read (halloc : ∀ n, alloc n = true) (ha : ctx.alive = true) (hkept : ctx.socket.loss = none)
    (hp : ctx.socket.pieces ≠ []) (hnone : findDelim delim acc = none) (hm : maxBytes = 0 ∨ acc.length < maxBytes) (hr : Room ctx) :
    ∃ data s', recvLoop alloc delim maxBytes ctx acc =
        recvLoop alloc delim maxBytes (after ctx s' data.length) (acc ++ data) ∧
      0 < data.length ∧ s'.loss = none ∧ ReadOf (request maxBytes acc.length) ctx.socket.pieces data s'.pieces := by
  obtain ⟨piece, pieces, hp⟩ := List.exists_cons_of_ne_nil hp
  have halive := akTcpIsAlive_waiting ha hkept (by simp [hp])
  have hpos : 0 < piece.length := List.length_pos_iff.mpr (ctx.socket.nonempty piece (by simp [hp]))
  have hlen : piece.length ≤ ctx.socket.unread.length := by simp [Socket.unread, hp]
  have hfull : ¬ (0 < ctx.maxRecvBufferBytes ∧ ctx.maxRecvBufferBytes ≤ ctx.bufferedBytes) := by
    rcases hr with h0 | hr <;> omega
  have hgo : ∀ {data s'}, akTcpSocketRecv ctx.socket
      (toRead maxBytes ctx.maxRecvBufferBytes ctx.bufferedBytes acc.length) = .bytes data s' → data ≠ [] →
      recvLoop alloc delim maxBytes ctx acc =
        recvLoop alloc delim maxBytes (after ctx s' data.length) (acc ++ data) := by
    intro data s' hrecv hne
    obtain ⟨b, bs, rfl⟩ := List.exists_cons_of_ne_nil hne
    rw [recvLoop]
    simp only [halive, Bool.not_true, Bool.false_eq_true, if_false, hnone, ha]
    rw [if_neg (by omega), if_neg hfull]
    split
    · next h => simp [halive, hrecv] at h
    · next h => simp [halive, hrecv] at h
    · next h => simp [halive, hrecv] at h
    · next h =>
        simp only [halive, hrecv, Received.bytes.injEq, List.cons.injEq] at h
        obtain ⟨⟨rfl, rfl⟩, rfl⟩ := h
        simp [halloc, after, ha]
  have hreq := request_pos hm
  rcases toRead_cases hm hr with he | ⟨hl, hu⟩
  · by_cases hw : piece.length ≤ request maxBytes acc.length
    · obtain ⟨s', hs, hpieces, hloss⟩ := akTcpSocketRecv_whole hp hw
      refine ⟨piece, s', hgo (he ▸ hs) (List.length_pos_iff.mp hpos), hpos, hloss.trans hkept, ?_⟩
      rw [hp, hpieces]
      exact .whole piece pieces hw
    · obtain ⟨s', hs, hpieces, hloss⟩ := akTcpSocketRecv_part hp (not_le.mp hw)
      have htake : 0 < (piece.take (request maxBytes acc.length)).length := by
        rw [List.length_take]
        omega
      refine ⟨_, s', hgo (he ▸ hs) (List.length_pos_iff.mp htake), htake, hloss.trans hkept, ?_⟩
      rw [hp, hpieces]
      exact .part piece pieces (not_le.mp hw)
  · obtain ⟨s', hs, hpieces, hloss⟩ := akTcpSocketRecv_whole hp (hlen.trans hl)
    refine ⟨piece, s', hgo hs (List.length_pos_iff.mp hpos), hpos, hloss.trans hkept, ?_⟩
    rw [hp, hpieces]
    exact .whole piece pieces ((hlen.trans hl).trans hu)

/-- Once the record is in the buffer the call returns: it cuts the buffer after
the delimiter, unless the peer has closed and there is nothing left to read. -/
theorem recvLoop_done (ha : ctx.alive = true) (hkept : ctx.socket.loss = none) {n : Nat} (hrec : IsRecord delim acc n) (hd : delim ≠ []) :
    ∃ out ctx', recvLoop alloc delim maxBytes ctx acc = some (.buffer out, ctx') ∧ (out = acc ∨ out = acc.take n) ∧
      ctx'.socket.pieces = ctx.socket.pieces ∧ Ready ctx' ∧
      ctx'.maxRecvBufferBytes = ctx.maxRecvBufferBytes ∧ ctx'.bufferedBytes = ctx.bufferedBytes := by
  have hpieces := akTcpIsAlive_pieces ctx
  have hne : acc.length ≠ 0 := by
    have := hrec.pos hd
    have := hrec.le_length
    omega
  rw [recvLoop]
  by_cases hl : (akTcpIsAlive ctx).1 = true
  · rw [if_neg (by simp [hl])]
    cases hf : findDelim delim acc with
    | none => exact absurd hrec (findDelim_none hf n)
    | some i =>
        obtain rfl := hrec.unique (findDelim_some hf)
        have hctx : akTcpIsAlive ctx = (true, { ctx with socket := ctx.socket.poll.2 }) := by
          rw [akTcpIsAlive] at hl ⊢
          split_ifs at hl ⊢
          rfl
        have hready : Ready (akTcpIsAlive ctx).2 := ⟨Or.inl (by rw [hctx]; exact ha), akTcpIsAlive_loss hkept⟩
        exact ⟨_, _, rfl, Or.inr rfl, hpieces, hready, by rw [hctx], by rw [hctx]⟩
  · rw [if_pos (by simpa using hl)]
    have hempty : ctx.socket.pieces = [] := by
      by_contra hp
      rw [akTcpIsAlive_waiting ha hkept hp] at hl
      exact hl rfl
    have hready : Ready (akTcpIsAlive ctx).2 := ⟨Or.inr (hpieces.trans hempty), akTcpIsAlive_loss hkept⟩
    refine ⟨acc, (akTcpIsAlive ctx).2, by rw [finishRecv, if_neg hne], Or.inl rfl, hpieces, hready, ?_, ?_⟩
    · rw [akTcpIsAlive]
      split_ifs <;> rfl
    · rw [akTcpIsAlive]
      split_ifs <;> rfl

end Loop

section Call

variable {alloc : Nat → Bool} {delim : List UInt8} {maxBytes : Nat}

def Stops (maxBytes : Nat) (ctx : TcpCtx) (acc : List UInt8) (n : Nat) (r : Option (Outcome × TcpCtx)) : Prop :=
  ∃ out ctx', r = some (.buffer out, ctx') ∧ Ready ctx' ∧ Room ctx' ∧
    (acc.length + n = maxBytes ∨ ReadEndsAt ctx.socket.pieces n →
      out = acc ++ ctx.socket.unread.take n ∧ ctx'.socket.pieces = skip ctx.socket.pieces n) ∧
    (¬ (acc.length + n = maxBytes ∨ ReadEndsAt ctx.socket.pieces n) →
      ctx'.socket.unread.length + n < ctx.socket.unread.length)

theorem room_after {ctx : TcpCtx} {s : Socket} {data : List UInt8} (hr : Room ctx)
    (hu : ctx.socket.unread = data ++ s.unread) : Room (after ctx s data.length) := by
  rcases hr with h0 | hr
  · exact Or.inl h0
  · right
    rw [hu, List.length_append] at hr
    show ctx.bufferedBytes + data.length + s.unread.length ≤ ctx.maxRecvBufferBytes
    omega

theorem Stops.of_read {ctx : TcpCtx} {acc data : List UInt8} {s : Socket} {n : Nat} {r : Option (Outcome × TcpCtx)}
    (hread : ReadOf (request maxBytes acc.length) ctx.socket.pieces data s.pieces)
    (hm : maxBytes = 0 ∨ acc.length + n ≤ maxBytes) (hn : data.length < n)
    (h : Stops maxBytes (after ctx s data.length) (acc ++ data) (n - data.length) r) :
    Stops maxBytes ctx acc n r := by
  obtain ⟨out, ctx', hr, hready, hroom, hgood, hbad⟩ := h
  obtain ⟨hends, hskip⟩ := hread.more hm hn
  have hu : ctx.socket.unread = data ++ s.unread := hread.flatten
  have hlen : (acc ++ data).length + (n - data.length) = acc.length + n := by
    rw [List.length_append]
    omega
  rw [hlen] at hgood hbad
  refine ⟨out, ctx', hr, hready, hroom, ?_, ?_⟩
  · rw [hends, hskip]
    intro hc
    obtain ⟨hout, hpieces⟩ := hgood hc
    refine ⟨?_, hpieces⟩
    rw [hout, hu, List.take_append, List.take_of_length_le hn.le, List.append_assoc]
    rfl
  · rw [hends]
    intro hc
    have := hbad hc
    rw [hu, List.length_append]
    change ctx'.socket.unread.length + (n - data.length) < s.unread.length at this
    omega

theorem stops_of_last {ctx : TcpCtx} {acc data : List UInt8} {s : Socket} {n : Nat} (hd : delim ≠ [])
    (ha : ctx.alive = true) (hr : Room ctx) (hkept : s.loss = none)
    (hread : ReadOf (request maxBytes acc.length) ctx.socket.pieces data s.pieces)
    (hm : maxBytes = 0 ∨ acc.length + n ≤ maxBytes) (hpos : 0 < n) (hn : n ≤ data.length)
    (hrec : IsRecord delim (acc ++ ctx.socket.unread) (acc.length + n)) :
    Stops maxBytes ctx acc n (recvLoop alloc delim maxBytes (after ctx s data.length) (acc ++ data)) := by
  have hu : ctx.socket.unread = data ++ s.unread := hread.flatten
  have hrec' : IsRecord delim (acc ++ data) (acc.length + n) := by
    have := hrec.take (c := (acc ++ data).length) (by rw [List.length_append]; omega)
    rwa [hu, ← List.append_assoc, List.take_left] at this
  obtain ⟨out, ctx', hloop, hout, hpieces, hready, hlim, hbuf⟩ :=
    @recvLoop_done alloc delim maxBytes (after ctx s data.length) (acc ++ data) ha hkept _ hrec' hd
  have hpieces' : ctx'.socket.pieces = s.pieces := hpieces
  have hroom : Room ctx' := by
    have := room_after hr hu
    rwa [Room, ← hlim, ← hbuf, Socket.unread, ← hpieces] at this
  refine ⟨out, ctx', hloop, hready, hroom, ?_, ?_⟩
  · rw [hread.last hm hpos hn]
    intro he
    refine ⟨?_, ?_⟩
    · have htake : (acc ++ data).take (acc.length + n) = acc ++ data :=
        List.take_of_length_le (by rw [List.length_append]; omega)
      rw [hu, ← he, List.take_left]
      rcases hout with rfl | rfl
      · rfl
      · exact htake
    · rw [hpieces', hread.skip s.nonempty, he]
  · rw [hread.last hm hpos hn]
    intro hne
    rw [hu, List.length_append, Socket.unread, hpieces', ← Socket.unread]
    omega

/-- The loop finds the record: it receives until the record is in the buffer,
and overshoots it unless a receive ends with it. -/
theorem recvLoop_stops (halloc : ∀ n, alloc n = true) (hd : delim ≠ []) {ctx : TcpCtx} {acc : List UInt8} {n : Nat}
    (ha : ctx.alive = true) (hkept : ctx.socket.loss = none) (hr : Room ctx)
    (hm : maxBytes = 0 ∨ acc.length + n ≤ maxBytes) (hpos : 0 < n)
    (hrec : IsRecord delim (acc ++ ctx.socket.unread) (acc.length + n)) :
    Stops maxBytes ctx acc n (recvLoop alloc delim maxBytes ctx acc) := by
  induction hk : ctx.socket.unread.length using Nat.strong_induction_on generalizing ctx acc n with
  | _ k ih =>
      have hlen := hrec.le_length
      rw [List.length_append] at hlen
      have hp : ctx.socket.pieces ≠ [] := by
        intro he
        rw [Socket.unread, he] at hlen
        simp at hlen
        omega
      have hnone : findDelim delim acc = none := by
        rw [Option.eq_none_iff_forall_ne_some]
        intro i hi
        refine hrec.not_in_shorter (c := acc.length) (m := i + delim.length) (by omega) ?_
        rw [List.take_left]
        exact findDelim_some hi
      have hm' : maxBytes = 0 ∨ acc.length < maxBytes := by omega
      obtain ⟨data, s, hstep, hdata, hleft, hread⟩ := recvLoop_read halloc ha hkept hp hnone hm' hr
      have hu : ctx.socket.unread = data ++ s.unread := hread.flatten
      rw [hstep]
      by_cases hn : data.length < n
      · refine Stops.of_read hread hm hn ?_
        have hsum : (acc ++ data).length + (n - data.length) = acc.length + n := by
          rw [List.length_append]
          omega
        refine ih s.unread.length ?_ ha hleft (room_after hr hu) (by rwa [hsum]) (by omega) ?_ rfl
        · rw [← hk, hu, List.length_append]
          omega
        · rw [hsum, List.append_assoc]
          exact hu ▸ hrec
      · exact stops_of_last hd ha hr hleft hread hm hpos (by omega) hrec

theorem akTcpRecvUntil_stops (halloc : ∀ n, alloc n = true) (hd : delim ≠ []) {ctx : TcpCtx} {n : Nat}
    (hready : Ready ctx) (hr : Room ctx) (hm : maxBytes = 0 ∨ n ≤ maxBytes)
    (hrec : IsRecord delim ctx.socket.unread n) :
    Stops maxBytes ctx [] n (akTcpRecvUntil alloc ctx delim maxBytes) := by
  have hpos := hrec.pos hd
  have ha : ctx.alive = true := by
    refine hready.alive.resolve_right fun he => ?_
    have hlen := hrec.le_length
    rw [Socket.unread, he] at hlen
    simp at hlen
    omega
  rw [akTcpRecvUntil, if_neg (by simpa using hd), if_neg (by simp [halloc])]
  exact recvLoop_stops halloc hd ha hready.kept hr (by simpa using hm) hpos (by simpa using hrec)

end Call

/-- For every stream, delimiter and way the transport cuts the stream into
pieces: consecutive calls return the consecutive records and lose no byte
exactly when every record ends where a receive ends. -/
theorem akTcpRecvUntil_lossless_iff (alloc : Nat → Bool) (halloc : ∀ n, alloc n = true) (delim : List UInt8)
    (hd : delim ≠ []) (maxBytes : Nat) (ctx : TcpCtx) (hready : Ready ctx) (hroom : Room ctx)
    (hmax : maxBytes = 0 ∨ ∀ r ∈ records delim ctx.socket.unread, r.length ≤ maxBytes) :
    Lossless alloc delim maxBytes ctx (records delim ctx.socket.unread) ↔
      Aligned maxBytes ctx.socket.pieces (records delim ctx.socket.unread) := by
  generalize hrs : records delim ctx.socket.unread = rs at hmax
  induction rs generalizing ctx with
  | nil => simp [Lossless, Aligned]
  | cons r rs ih =>
      obtain ⟨n, hrec, rfl, hrest⟩ := isRecord_of_records hrs
      have hlen : (ctx.socket.unread.take n).length = n := by
        rw [List.length_take, Nat.min_eq_left hrec.le_length]
      have hm : maxBytes = 0 ∨ n ≤ maxBytes := hmax.imp id fun h => hlen ▸ h _ (by simp)
      obtain ⟨out, ctx', hcall, hready', hroom', hgood, hbad⟩ :=
        akTcpRecvUntil_stops halloc hd hready hroom hm hrec
      rw [List.length_nil, Nat.zero_add, List.nil_append] at hgood
      rw [List.length_nil, Nat.zero_add] at hbad
      rw [Lossless, Aligned, hlen]
      by_cases hc : n = maxBytes ∨ ReadEndsAt ctx.socket.pieces n
      · obtain ⟨rfl, hpieces⟩ := hgood hc
        have hunread : ctx'.socket.unread = ctx.socket.unread.drop n := by
          rw [Socket.unread, hpieces, flatten_skip]
          rfl
        have ih' := ih ctx' hready' hroom' (by rw [hunread, ← hrest])
          (hmax.imp id fun h r hr => h r (List.mem_cons_of_mem _ hr))
        rw [← hpieces, ← ih']
        constructor
        · rintro ⟨ctx'', hcall', -, htail⟩
          rw [hcall] at hcall'
          cases hcall'
          exact ⟨hc, htail⟩
        · rintro ⟨-, htail⟩
          exact ⟨ctx', hcall, by rw [hunread, List.take_append_drop], htail⟩
      · constructor
        · rintro ⟨ctx'', hcall', hu, -⟩
          rw [hcall] at hcall'
          cases hcall'
          have hl := congrArg List.length hu
          rw [List.length_append, hlen] at hl
          have := hbad hc
          omega
        · rintro ⟨hc', -⟩
          exact absurd hc' hc

theorem akTcpRecvUntil_lossless_iff_two_pieces :
    Lossless (fun _ => true) [59] 0 ⟨⟨[[97, 59], [98, 59]], by decide, .closed 0, none⟩, true, 0, 0⟩
      [[97, 59], [98, 59]] := by
  have hrecords : records ([59] : List UInt8) [97, 59, 98, 59] = [[97, 59], [98, 59]] := by decide +kernel
  have h := (akTcpRecvUntil_lossless_iff (fun _ => true) (fun _ => rfl) [59] (by decide) 0
    ⟨⟨[[97, 59], [98, 59]], by decide, .closed 0, none⟩, true, 0, 0⟩ ⟨Or.inl rfl, rfl⟩ (Or.inl rfl) (Or.inl rfl)).mpr
  rw [show Socket.unread _ = [97, 59, 98, 59] from rfl, hrecords] at h
  exact h (by simp [Aligned, ReadEndsAt, skip])

/-- The same two records in one piece: the first call returns the first record
and the second record is gone. -/
theorem akTcpRecvUntil_loses_record :
    records ([59] : List UInt8) [97, 59, 98, 59] = [[97, 59], [98, 59]] ∧
      akTcpRecvUntil (fun _ => true) ⟨⟨[[97, 59, 98, 59]], by decide, .closed 1, none⟩, true, 0, 0⟩ [59] 0 =
        some (.buffer [97, 59], ⟨⟨[], by decide, .closed 0, none⟩, true, 0, 4⟩) ∧
      akTcpRecvUntil (fun _ => true) ⟨⟨[], by decide, .closed 0, none⟩, true, 0, 4⟩ [59] 0 =
        some (.null none, ⟨⟨[], by decide, .closed 0, none⟩, false, 0, 4⟩) ∧
      ¬ Lossless (fun _ => true) [59] 0 ⟨⟨[[97, 59, 98, 59]], by decide, .closed 1, none⟩, true, 0, 0⟩
        (records [59] [97, 59, 98, 59]) := by
  have hrecords : records ([59] : List UInt8) [97, 59, 98, 59] = [[97, 59], [98, 59]] := by decide +kernel
  have hfirst : akTcpRecvUntil (fun _ => true) ⟨⟨[[97, 59, 98, 59]], by decide, .closed 1, none⟩, true, 0, 0⟩ [59] 0 =
      some (.buffer [97, 59], ⟨⟨[], by decide, .closed 0, none⟩, true, 0, 4⟩) := by decide +kernel
  refine ⟨hrecords, hfirst, by decide +kernel, ?_⟩
  rw [hrecords]
  rintro ⟨ctx', hcall, hu, -⟩
  rw [hfirst] at hcall
  cases hcall
  exact absurd hu (by decide)

end Ak24.TcpFraming
