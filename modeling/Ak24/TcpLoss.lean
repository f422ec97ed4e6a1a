import Ak24.TcpRecvLoop

namespace Ak24.TcpLoss

open TcpModel Records TcpFraming TcpRecvLoop

def heard (maxBytes limit : Nat) : Nat → Nat → Nat → List (List UInt8) → Option (List (List UInt8))
  | 0, _, _, _ => some []
  | _ + 1, _, _, [] => none
  | k + 1, buffered, count, piece :: pieces =>
    if 0 < maxBytes ∧ maxBytes ≤ count ∨ 0 < limit ∧ limit ≤ buffered then none
    else
      let n := toRead maxBytes limit buffered count
      if piece.length ≤ n then
        (heard maxBytes limit k (buffered + piece.length) (count + piece.length) pieces).map (piece :: ·)
      else (heard maxBytes limit k (buffered + n) (count + n) (piece.drop n :: pieces)).map (piece.take n :: ·)

theorem heard_succ {maxBytes limit k buffered count : Nat} {pieces chunks : List (List UInt8)}
    (h : heard maxBytes limit (k + 1) buffered count pieces = some chunks) :
    ¬ (0 < maxBytes ∧ maxBytes ≤ count ∨ 0 < limit ∧ limit ≤ buffered) ∧ ∃ data pieces' rest,
      ReadOf (toRead maxBytes limit buffered count) pieces data pieces' ∧ chunks = data :: rest ∧
      heard maxBytes limit k (buffered + data.length) (count + data.length) pieces' = some rest := by
  cases pieces with
  | nil => simp [heard] at h
  | cons piece pieces =>
      simp only [heard] at h
      split_ifs at h with hfull hw
      · obtain ⟨rest, hrest, rfl⟩ := Option.map_eq_some_iff.mp h
        exact ⟨hfull, _, _, rest, .whole piece pieces hw, rfl, hrest⟩
      · obtain ⟨rest, hrest, rfl⟩ := Option.map_eq_some_iff.mp h
        refine ⟨hfull, _, _, rest, .part piece pieces (not_le.mp hw), rfl, ?_⟩
        rwa [List.length_take, Nat.min_eq_left (not_le.mp hw).le]

theorem heard_read {maxBytes limit k buffered count : Nat} {pieces pieces' : List (List UInt8)} {data : List UInt8}
    (hopen : ¬ (0 < maxBytes ∧ maxBytes ≤ count ∨ 0 < limit ∧ limit ≤ buffered))
    (hread : ReadOf (toRead maxBytes limit buffered count) pieces data pieces') :
    heard maxBytes limit (k + 1) buffered count pieces =
      (heard maxBytes limit k (buffered + data.length) (count + data.length) pieces').map (data :: ·) := by
  cases hread with
  | whole piece pieces hw => rw [heard, if_neg hopen, if_pos hw]
  | part piece pieces hw =>
      rw [heard, if_neg hopen, if_neg (not_le.mpr hw), List.length_take, Nat.min_eq_left hw.le]

theorem ReadOf.nonempty {n : Nat} {pieces pieces' : List (List UInt8)} {data : List UInt8} (hn : 0 < n)
    (hread : ReadOf n pieces data pieces') (hne : ∀ piece ∈ pieces, piece ≠ []) :
    data ≠ [] ∧ ∀ piece ∈ pieces', piece ≠ [] := by
  cases hread with
  | whole piece pieces hw => exact List.forall_mem_cons.mp hne
  | part piece pieces hw =>
      obtain ⟨-, hrest⟩ := List.forall_mem_cons.mp hne
      refine ⟨fun h => ?_, List.forall_mem_cons.mpr ⟨fun h => ?_, hrest⟩⟩
      · have := congrArg List.length h
        rw [List.length_take, List.length_nil] at this
        omega
      · have := congrArg List.length h
        rw [List.length_drop, List.length_nil] at this
        omega

theorem heard_nonempty {maxBytes limit k buffered count : Nat} {pieces chunks : List (List UInt8)}
    (h : heard maxBytes limit k buffered count pieces = some chunks) (hne : ∀ piece ∈ pieces, piece ≠ []) :
    ∀ chunk ∈ chunks, chunk ≠ [] := by
  induction k generalizing buffered count pieces chunks with
  | zero =>
      rw [heard] at h
      cases h
      simp
  | succ k ih =>
      obtain ⟨hopen, data, pieces', rest, hread, rfl, hrest⟩ := heard_succ h
      obtain ⟨hdata, hpieces'⟩ := ReadOf.nonempty (toRead_pos fun hfull => hopen (Or.inr hfull)) hread hne
      exact List.forall_mem_cons.mpr ⟨hdata, ih hrest hpieces'⟩

theorem heard_beginning {maxBytes limit k buffered count : Nat} {pieces chunks : List (List UInt8)}
    (h : heard maxBytes limit k buffered count pieces = some chunks) : chunks.flatten <+: pieces.flatten := by
  induction k generalizing buffered count pieces chunks with
  | zero =>
      rw [heard] at h
      cases h
      exact List.nil_prefix
  | succ k ih =>
      obtain ⟨-, data, pieces', rest, hread, rfl, hrest⟩ := heard_succ h
      rw [hread.flatten, List.flatten_cons, List.prefix_append_right_inj]
      exact ih hrest

/-- The context with the stream that a call gets to hear before the connection is
lost, and with the loss as a close. -/
def upToLoss (maxBytes : Nat) (ctx : TcpCtx) : TcpCtx :=
  match ctx.socket.loss with
  | none => ctx
  | some loss =>
    match h : heard maxBytes ctx.maxRecvBufferBytes loss.polls ctx.bufferedBytes 0 ctx.socket.pieces with
    | some chunks => { ctx with socket := ⟨chunks, heard_nonempty h ctx.socket.nonempty, .closed 0, none⟩ }
    | none => { ctx with socket := { ctx.socket with loss := none } }

section Loop

variable {alloc : Nat → Bool} {delim : List UInt8} {maxBytes : Nat} {c d ctx : TcpCtx} {acc : List UInt8}

theorem recvLoop_eq : recvLoop alloc delim maxBytes ctx acc =
    if (akTcpIsAlive ctx).1 = false then some (finishRecv acc, polled ctx)
    else
      match findDelim delim acc with
      | some i => some (.buffer (acc.take (i + delim.length)), polled ctx)
      | none =>
        if 0 < maxBytes ∧ maxBytes ≤ acc.length then
          some (.null (some "Maximum receive size exceeded before delimiter found"), polled ctx)
        else if 0 < ctx.maxRecvBufferBytes ∧ ctx.maxRecvBufferBytes ≤ ctx.bufferedBytes then
          some (.null (some "Receive buffer full (backpressure limit)"), polled ctx)
        else
          match akTcpSocketRecv (polled ctx).socket (asks maxBytes ctx acc) with
          | .blocked => none
          | .failed error => some (.null (some error), polled ctx)
          | .bytes data socket =>
            if data = [] then some (finishRecv acc, { ctx with alive := false, socket })
            else if alloc (acc.length + data.length) = true then
              recvLoop alloc delim maxBytes (after ctx socket data.length) (acc ++ data)
            else some (.null (some "Buffer allocation failed"), { ctx with socket }) := by
  have hpass := recvLoop_pass alloc delim maxBytes ctx acc
  generalize recvLoop alloc delim maxBytes ctx acc = r at hpass
  cases hpass with
  | dead h => rw [if_pos h]
  | found i hl hf => simp [hl, hf]
  | oversize hl hf hm => simp [hl, hf, hm]
  | full hl hf hm hb => simp [hl, hf, hm, hb]
  | blocked hr h => simp [hr.live, hr.unfound, hr.short, hr.room, h]
  | failed error hr h => simp [hr.live, hr.unfound, hr.short, hr.room, h]
  | ended socket hr h => simp [hr.live, hr.unfound, hr.short, hr.room, h]
  | refused data socket hr hne h ha => simp [hr.live, hr.unfound, hr.short, hr.room, h, hne, ha]
  | again data socket hr hne h ha => simp [hr.live, hr.unfound, hr.short, hr.room, h, hne, ha]

inductive Same (next : List UInt8 → Socket → Socket → Prop) : Received → Received → Prop
  | blocked : Same next .blocked .blocked
  | failed (error : String) : Same next (.failed error) (.failed error)
  | ended (s t : Socket) : Same next (.bytes [] s) (.bytes [] t)
  | bytes (data : List UInt8) (s t : Socket) (h : data ≠ [] → next data s t) : Same next (.bytes data s) (.bytes data t)

def outcome (r : Option (Outcome × TcpCtx)) : Option Outcome := r.map Prod.fst

theorem recvLoop_same (hlive : (akTcpIsAlive c).1 = (akTcpIsAlive d).1)
    (hlimit : c.maxRecvBufferBytes = d.maxRecvBufferBytes) (hbuffered : c.bufferedBytes = d.bufferedBytes)
    (hsame : Reading delim maxBytes c acc → Same (fun data s t =>
        outcome (recvLoop alloc delim maxBytes (after c s data.length) (acc ++ data)) =
          outcome (recvLoop alloc delim maxBytes (after d t data.length) (acc ++ data)))
      (akTcpSocketRecv (polled c).socket (asks maxBytes c acc))
      (akTcpSocketRecv (polled d).socket (asks maxBytes c acc))) :
    outcome (recvLoop alloc delim maxBytes c acc) = outcome (recvLoop alloc delim maxBytes d acc) := by
  have hasks : asks maxBytes d acc = asks maxBytes c acc := by rw [asks, asks, hlimit, hbuffered]
  rw [recvLoop_eq, @recvLoop_eq _ _ _ d, ← hlive, ← hlimit, ← hbuffered, hasks]
  cases hl : (akTcpIsAlive c).1 with
  | false => rfl
  | true =>
      simp only [Bool.true_eq_false, if_false]
      cases hf : findDelim delim acc with
      | some i => rfl
      | none =>
          simp only
          split_ifs with hm hb
          · rfl
          · rfl
          · have hread := hsame ⟨hl, hf, hm, hb⟩
            generalize akTcpSocketRecv (polled c).socket (asks maxBytes c acc) = x at hread
            generalize akTcpSocketRecv (polled d).socket (asks maxBytes c acc) = y at hread
            cases hread with
            | blocked | failed | ended => rfl
            | bytes data s t h =>
                simp only
                split_ifs with hne ha
                · rfl
                · exact h hne
                · rfl

theorem recv_of_readOf {s : Socket} {n : Nat} {data : List UInt8} {pieces : List (List UInt8)}
    (h : ReadOf n s.pieces data pieces) :
    ∃ s', akTcpSocketRecv s n = .bytes data s' ∧ s'.pieces = pieces := by
  generalize hp : s.pieces = left at h
  cases h with
  | whole piece rest hw =>
      obtain ⟨s', hs, hleft, -⟩ := akTcpSocketRecv_whole hp hw
      exact ⟨s', hs, hleft⟩
  | part piece rest hw =>
      obtain ⟨s', hs, hleft, -⟩ := akTcpSocketRecv_part hp hw
      exact ⟨s', hs, hleft⟩

theorem polled_look {k : Nat} {poll : Poll} {lost : poll.fails = true ∨ poll.hangsUp = true} (ha : ctx.alive = true)
    (hloss : ctx.socket.loss = some ⟨k + 1, poll, lost⟩) :
    ((akTcpIsAlive ctx).1 = false ↔ ctx.socket.pieces = [] ∧ ctx.socket.ending = .closed 0) ∧
      (polled ctx).socket.loss = some ⟨k, poll, lost⟩ ∧ (polled ctx).socket.ending = ctx.socket.look.2.ending := by
  have hpoll : ctx.socket.poll = (ctx.socket.look.1, { ctx.socket.look.2 with loss := some ⟨k, poll, lost⟩ }) := by
    rw [Socket.poll, hloss]
  rw [polled, akTcpIsAlive, ha, hpoll, ← look_closed]
  split_ifs with h1 h2
  · cases h1
  · simpa using h2
  · simpa using h2

theorem recvLoop_next {k : Nat} {poll : Poll} {lost : poll.fails = true ∨ poll.hangsUp = true} {data : List UInt8}
    {left right : List (List UInt8)} (ha : c.alive = true) (hloss : c.socket.loss = some ⟨k + 1, poll, lost⟩)
    (had : d.alive = true) (hkept : d.socket.loss = none) (hlimit : c.maxRecvBufferBytes = d.maxRecvBufferBytes)
    (hbuffered : c.bufferedBytes = d.bufferedBytes) (hread : ReadOf (asks maxBytes c acc) c.socket.pieces data left)
    (hread' : ReadOf (asks maxBytes c acc) d.socket.pieces data right)
    (hnext : ∀ s t : Socket, s.loss = some ⟨k, poll, lost⟩ → s.pieces = left → s.ending = c.socket.ending →
      t.loss = none → t.pieces = right → t.ending = d.socket.ending →
      outcome (recvLoop alloc delim maxBytes (after c s data.length) (acc ++ data)) =
        outcome (recvLoop alloc delim maxBytes (after d t data.length) (acc ++ data))) :
    outcome (recvLoop alloc delim maxBytes c acc) = outcome (recvLoop alloc delim maxBytes d acc) := by
  have hwaiting {n : Nat} {pieces pieces' : List (List UInt8)} (h : ReadOf n pieces data pieces') : pieces ≠ [] := by
    cases h <;> exact List.cons_ne_nil _ _
  obtain ⟨hlook, hleft, hending⟩ := polled_look ha hloss
  have hlive : (akTcpIsAlive c).1 = true := by
    rw [← Bool.not_eq_false, hlook]
    exact fun h => hwaiting hread h.1
  have hsame : c.socket.look.2.ending = c.socket.ending :=
    (look_ending c.socket).resolve_right fun ⟨_, _, _, hp⟩ => hwaiting hread hp
  have hdlive : akTcpIsAlive d = (true, d) := akTcpIsAlive_waiting had hkept (hwaiting hread')
  refine recvLoop_same (by rw [hlive, hdlive]) hlimit hbuffered fun hr => ?_
  obtain ⟨hdata, -⟩ := ReadOf.nonempty (asks_pos hr) hread c.socket.nonempty
  obtain ⟨s, hs, hspieces⟩ := recv_of_readOf (s := (polled c).socket) ((polled_pieces c).symm ▸ hread)
  obtain ⟨t, ht, htpieces⟩ := recv_of_readOf (s := (polled d).socket) ((polled_pieces d).symm ▸ hread')
  obtain ⟨-, hsending, hsloss⟩ := readOf_recv hdata hs
  obtain ⟨-, htending, htloss⟩ := readOf_recv hdata ht
  rw [polled, hdlive] at htending htloss
  rw [hs, ht]
  exact .bytes data s t fun _ => hnext s t (hsloss.trans hleft) hspieces (hsending.trans (hending.trans hsame))
    (htloss.trans hkept) htpieces htending

/-- A call whose connection is lost after receives that it gets to make goes as
if the peer had closed there. -/
theorem recvLoop_lost {k : Nat} {poll : Poll} {lost : poll.fails = true ∨ poll.hangsUp = true}
    {chunks : List (List UInt8)} (ha : c.alive = true) (hloss : c.socket.loss = some ⟨k, poll, lost⟩)
    (hheard : heard maxBytes c.maxRecvBufferBytes k c.bufferedBytes acc.length c.socket.pieces = some chunks)
    (had : d.alive = true) (hkept : d.socket.loss = none) (hpieces : d.socket.pieces = chunks)
    (hending : d.socket.ending = .closed 0) (hlimit : c.maxRecvBufferBytes = d.maxRecvBufferBytes)
    (hbuffered : c.bufferedBytes = d.bufferedBytes) :
    outcome (recvLoop alloc delim maxBytes c acc) = outcome (recvLoop alloc delim maxBytes d acc) := by
  induction k generalizing c d acc chunks with
  | zero =>
      rw [heard] at hheard
      cases hheard
      have hdead : (akTcpIsAlive d).1 = false := (poll_closed had hkept).mpr ⟨hpieces, hending⟩
      have hgone : (akTcpIsAlive c).1 = false := by
        rw [akTcpIsAlive, ha, Socket.poll, hloss]
        simp [peerClosed_of_lost lost]
      refine recvLoop_same (hgone.trans hdead.symm) hlimit hbuffered fun hr => ?_
      exact absurd (hgone.symm.trans hr.live) (by simp)
  | succ k ih =>
      obtain ⟨-, data, left, rest, hread, rfl, hrest⟩ := heard_succ hheard
      have hread' : ReadOf (asks maxBytes c acc) d.socket.pieces data rest := by
        rw [hpieces]
        exact .whole data rest hread.length_le
      refine recvLoop_next ha hloss had hkept hlimit hbuffered hread hread'
        fun s t hsloss hspieces _ htloss htpieces htending => ?_
      refine ih ha hsloss ?_ had htloss htpieces (htending.trans hending) hlimit (by rw [after, after, hbuffered])
      simp only [after, hspieces, List.length_append]
      exact hrest

theorem look_congr {s t : Socket} (hpieces : s.pieces = t.pieces) (hending : s.ending = t.ending) :
    s.look.2.ending = t.look.2.ending := by
  obtain ⟨pieces, hne, ending, loss⟩ := s
  obtain ⟨pieces', hne', ending', loss'⟩ := t
  obtain rfl : pieces = pieces' := hpieces
  obtain rfl : ending = ending' := hending
  cases pieces with
  | cons => rfl
  | nil =>
      cases ending with
      | closed polls => cases polls <;> rfl
      | waiting | failed => rfl

theorem recv_same_nil {s t : Socket} {n : Nat} {next : List UInt8 → Socket → Socket → Prop} (hs : s.pieces = [])
    (ht : t.pieces = []) (hending : s.ending = t.ending) :
    Same next (akTcpSocketRecv s n) (akTcpSocketRecv t n) := by
  obtain ⟨pieces, hne, ending, loss⟩ := s
  obtain ⟨pieces', hne', ending', loss'⟩ := t
  obtain rfl : pieces = [] := hs
  obtain rfl : pieces' = [] := ht
  obtain rfl : ending = ending' := hending
  cases ending with
  | waiting => exact .blocked
  | closed polls => exact .ended _ _
  | failed error => exact .failed error

theorem readOf_exists {pieces : List (List UInt8)} (n : Nat) (hp : pieces ≠ []) :
    ∃ data pieces', ReadOf n pieces data pieces' := by
  obtain ⟨piece, pieces, rfl⟩ := List.exists_cons_of_ne_nil hp
  by_cases hw : piece.length ≤ n
  · exact ⟨_, _, .whole piece pieces hw⟩
  · exact ⟨_, _, .part piece pieces (not_le.mp hw)⟩

theorem recvLoop_unheard {k : Nat} {poll : Poll} {lost : poll.fails = true ∨ poll.hangsUp = true}
    (ha : c.alive = true) (hloss : c.socket.loss = some ⟨k, poll, lost⟩)
    (hheard : heard maxBytes c.maxRecvBufferBytes k c.bufferedBytes acc.length c.socket.pieces = none)
    (had : d.alive = true) (hkept : d.socket.loss = none) (hpieces : d.socket.pieces = c.socket.pieces)
    (hending : d.socket.ending = c.socket.ending) (hlimit : c.maxRecvBufferBytes = d.maxRecvBufferBytes)
    (hbuffered : c.bufferedBytes = d.bufferedBytes) :
    outcome (recvLoop alloc delim maxBytes c acc) = outcome (recvLoop alloc delim maxBytes d acc) := by
  induction k generalizing c d acc with
  | zero => simp [heard] at hheard
  | succ k ih =>
      obtain ⟨hlook, hleft, hsending⟩ := polled_look ha hloss
      have hlive : (akTcpIsAlive c).1 = (akTcpIsAlive d).1 := by
        have hdlook := poll_closed had hkept
        rw [hpieces, hending, ← hlook] at hdlook
        cases h : (akTcpIsAlive c).1 with
        | false => exact (hdlook.mpr h).symm
        | true =>
            rw [h] at hdlook
            simpa using hdlook
      by_cases hp : c.socket.pieces = []
      · refine recvLoop_same hlive hlimit hbuffered fun _ => ?_
        refine recv_same_nil ((polled_pieces c).trans hp) ((polled_pieces d).trans (hpieces.trans hp)) ?_
        rw [hsending, look_congr hpieces.symm hending.symm, polled, akTcpIsAlive_kept had hkept]
        split_ifs <;> rfl
      by_cases hopen : 0 < maxBytes ∧ maxBytes ≤ acc.length ∨
          0 < c.maxRecvBufferBytes ∧ c.maxRecvBufferBytes ≤ c.bufferedBytes
      · refine recvLoop_same hlive hlimit hbuffered fun hr => ?_
        exact absurd hopen (not_or.mpr ⟨hr.short, hr.room⟩)
      · obtain ⟨data, left, hread⟩ := readOf_exists (asks maxBytes c acc) hp
        rw [heard_read hopen hread, Option.map_eq_none_iff] at hheard
        refine recvLoop_next ha hloss had hkept hlimit hbuffered hread (hpieces.symm ▸ hread)
          fun s t hsloss hspieces hsending htloss htpieces htending => ?_
        refine ih ha hsloss ?_ had htloss (htpieces.trans hspieces.symm)
          (htending.trans (hending.trans hsending.symm)) hlimit (by rw [after, after, hbuffered])
        simp only [after, hspieces, List.length_append]
        exact hheard

/-- A call goes as it would with the stream it gets to hear. -/
theorem recvLoop_upToLoss (ha : ctx.alive = true) : outcome (recvLoop alloc delim maxBytes ctx []) =
    outcome (recvLoop alloc delim maxBytes (upToLoss maxBytes ctx) []) := by
  rw [upToLoss]
  split
  · rfl
  · next loss hloss =>
      split
      · next chunks h => exact recvLoop_lost ha hloss h ha rfl rfl rfl rfl rfl
      · next h => exact recvLoop_unheard ha hloss h ha rfl rfl rfl rfl rfl

theorem recvLoop_beginning {out : List UInt8} {ctx' : TcpCtx}
    (h : recvLoop alloc delim maxBytes ctx acc = some (.buffer out, ctx')) : out <+: acc ++ ctx.socket.unread := by
  induction hk : ctx.socket.unread.length using Nat.strong_induction_on generalizing ctx acc with
  | _ k ih =>
      have hpass := recvLoop_pass alloc delim maxBytes ctx acc
      generalize recvLoop alloc delim maxBytes ctx acc = r at hpass h
      have hfinish {ctx'' : TcpCtx} (h : some (finishRecv acc, ctx'') = some (.buffer out, ctx')) :
          out <+: acc ++ ctx.socket.unread := by
        rw [finishRecv] at h
        split_ifs at h
        · cases h
        · cases h
          exact List.prefix_append _ _
      cases hpass with
      | dead hd => exact hfinish h
      | found i hl hf =>
          cases h
          exact (List.take_prefix _ _).trans (List.prefix_append _ _)
      | oversize | full | blocked | failed | refused => cases h
      | ended socket hr hrecv => exact hfinish h
      | again data socket hr hne hrecv ha =>
          have hread := (readOf_recv hne hrecv).1.flatten
          rw [polled_pieces] at hread
          have hu : ctx.socket.unread = data ++ socket.unread := hread
          have hpos := List.length_pos_iff.mpr hne
          have hrest := ih socket.unread.length (by rw [← hk, hu, List.length_append]; omega) h rfl
          rwa [after, List.append_assoc, ← hu] at hrest

theorem upToLoss_kept (maxBytes : Nat) (ctx : TcpCtx) : (upToLoss maxBytes ctx).socket.loss = none := by
  rw [upToLoss]
  split
  · assumption
  · split <;> rfl

theorem upToLoss_alive (maxBytes : Nat) (ctx : TcpCtx) : (upToLoss maxBytes ctx).alive = ctx.alive := by
  rw [upToLoss]
  split
  · rfl
  · split <;> rfl

theorem upToLoss_beginning (maxBytes : Nat) (ctx : TcpCtx) :
    (upToLoss maxBytes ctx).socket.unread <+: ctx.socket.unread := by
  rw [upToLoss]
  split
  · exact List.prefix_rfl
  · split
    · next h => exact heard_beginning h
    · exact List.prefix_rfl

end Loop

end Ak24.TcpLoss
