import Ak24.TcpLoss

namespace Ak24.TcpRecord

open TcpModel Records TcpFraming TcpRecvLoop TcpLoss

def OneRecord (delim stream out : List UInt8) : Prop := ∃ n, IsRecord delim stream n ∧ out = stream.take n

/-- What `ak_tcp_recv_until` is documented to return: one record, or NULL. -/
structure ReturnsRecord (alloc : Nat → Bool) (ctx : TcpCtx) (delim : List UInt8) (maxBytes : Nat) : Prop where
  record : ∀ out ctx', akTcpRecvUntil alloc ctx delim maxBytes = some (.buffer out, ctx') →
    OneRecord delim ctx.socket.unread out
  ended : ∀ k, ctx.socket.ending = .closed k → (∀ n, ¬ IsRecord delim ctx.socket.unread n) →
    ∃ error ctx', akTcpRecvUntil alloc ctx delim maxBytes = some (.null error, ctx')

/-- The loop receives everything the peer sent before it closed, with `acc` in the
buffer, and no receive before the last completes a record. -/
structure Exhausts (alloc : Nat → Bool) (delim : List UInt8) (maxBytes : Nat) (ctx : TcpCtx) (acc : List UInt8) :
    Prop where
  some : acc ++ ctx.socket.unread ≠ []
  fits : maxBytes = 0 ∨ acc.length + ctx.socket.unread.length ≤ maxBytes
  budget : ctx.maxRecvBufferBytes = 0 ∨ ctx.bufferedBytes + ctx.socket.unread.length ≤ ctx.maxRecvBufferBytes
  granted : ∀ n, 0 < n → ReadEndsAt ctx.socket.pieces n → alloc (acc.length + n) = true
  silent : ∀ n, n < ctx.socket.unread.length → n = 0 ∨ ReadEndsAt ctx.socket.pieces n →
    ∀ m, ¬ IsRecord delim (acc ++ ctx.socket.unread.take n) m

/-- What the loop then returns is not a record: the close is noticed before the
buffer is searched, or by one more receive after it has been searched in vain. -/
def Misread (delim : List UInt8) (maxBytes : Nat) (ctx : TcpCtx) (acc : List UInt8) : Prop :=
  ctx.socket.ending = .closed 0 ∧
      ¬ IsRecord delim (acc ++ ctx.socket.unread) (acc.length + ctx.socket.unread.length) ∨
    (∃ k, ctx.socket.ending = .closed (k + 1)) ∧ (∀ n, ¬ IsRecord delim (acc ++ ctx.socket.unread) n) ∧
      (maxBytes = 0 ∨ acc.length + ctx.socket.unread.length < maxBytes) ∧
      (ctx.maxRecvBufferBytes = 0 ∨ ctx.bufferedBytes + ctx.socket.unread.length < ctx.maxRecvBufferBytes)

section Reads

variable {pieces pieces' : List (List UInt8)} {data : List UInt8} {n : Nat}

theorem readEndsAt_step (h : ReadOf tcpRecvChunkSize pieces data pieces') (hn : 0 < n) :
    ReadEndsAt pieces n ↔ n = data.length ∨ data.length < n ∧ ReadEndsAt pieces' (n - data.length) := by
  have hreq : request 0 0 = tcpRecvChunkSize := if_neg (by omega)
  rw [← hreq] at h
  by_cases hlt : data.length < n
  · rw [(h.more (Or.inl rfl) hlt).1]
    exact ⟨fun he => Or.inr ⟨hlt, he⟩, fun he => he.elim (fun he => by omega) fun he => he.2⟩
  · have hlast := h.last (n := n) (Or.inl rfl) hn (not_lt.mp hlt)
    rw [Nat.zero_add] at hlast
    constructor
    · intro he
      exact Or.inl (hlast.mp (Or.inr he)).symm
    · rintro (he | he)
      · exact (hlast.mpr he.symm).resolve_left (by omega)
      · exact absurd he.1 hlt

end Reads

theorem oneRecord_self {delim s : List UInt8} : OneRecord delim s s ↔ IsRecord delim s s.length := by
  constructor
  · rintro ⟨n, hn, he⟩
    have hlen := congrArg List.length he
    rw [List.length_take, Nat.min_eq_left hn.le_length] at hlen
    rwa [hlen]
  · intro h
    exact ⟨s.length, h, List.take_length.symm⟩

section Loop

variable {alloc : Nat → Bool} {delim : List UInt8} {maxBytes : Nat} {ctx : TcpCtx} {acc : List UInt8}

def Wrong (delim : List UInt8) (ctx : TcpCtx) (acc : List UInt8) (r : Option (Outcome × TcpCtx)) : Prop :=
  ∃ out ctx', r = some (.buffer out, ctx') ∧ ¬ OneRecord delim (acc ++ ctx.socket.unread) out

theorem not_wrong_none : ¬ Wrong delim ctx acc none := by
  rintro ⟨out, ctx', h, -⟩
  simp at h

theorem not_wrong_null {error : Option String} {ctx' : TcpCtx} : ¬ Wrong delim ctx acc (some (.null error, ctx')) := by
  rintro ⟨out, ctx'', h, -⟩
  simp at h

theorem wrong_finish {ctx' : TcpCtx} : Wrong delim ctx acc (some (finishRecv acc, ctx')) ↔
    acc ≠ [] ∧ ¬ OneRecord delim (acc ++ ctx.socket.unread) acc := by
  rw [finishRecv]
  by_cases he : acc.length = 0
  · rw [if_pos he]
    exact ⟨fun h => absurd h not_wrong_null, fun h => absurd (List.length_eq_zero_iff.mp he) h.1⟩
  · rw [if_neg he]
    constructor
    · rintro ⟨out, ctx'', h, hw⟩
      simp only [Option.some.injEq, Prod.mk.injEq, Outcome.buffer.injEq] at h
      obtain ⟨rfl, -⟩ := h
      exact ⟨fun h => he (by rw [h]; rfl), hw⟩
    · rintro ⟨-, hw⟩
      exact ⟨acc, ctx', rfl, hw⟩

theorem readOf_chunk {s : Socket} {data : List UInt8}
    (hfits : maxBytes = 0 ∨ acc.length + ctx.socket.unread.length ≤ maxBytes)
    (hbudget : ctx.maxRecvBufferBytes = 0 ∨ ctx.bufferedBytes + ctx.socket.unread.length ≤ ctx.maxRecvBufferBytes)
    (h : ReadOf (asks maxBytes ctx acc) ctx.socket.pieces data s.pieces) :
    ReadOf tcpRecvChunkSize ctx.socket.pieces data s.pieces := by
  have hle := asks_le maxBytes ctx acc
  have hunread : ctx.socket.unread = ctx.socket.pieces.flatten := rfl
  generalize hs : s.pieces = left at h ⊢
  generalize hp : ctx.socket.pieces = pieces at h hunread ⊢
  cases h with
  | whole piece pieces hw => exact .whole data left (hw.trans hle)
  | part piece pieces hw =>
      have hlen : piece.length ≤ ctx.socket.unread.length := by
        rw [hunread, List.flatten_cons, List.length_append]
        omega
      have hchunk : asks maxBytes ctx acc = tcpRecvChunkSize := by
        rw [asks, toRead] at hw ⊢
        split_ifs at hw ⊢ <;> simp only [tcpRecvChunkSize] at * <;> omega
      rw [hchunk] at hw ⊢
      exact .part piece pieces hw

theorem unread_nil (h : ctx.socket.pieces = []) : ctx.socket.unread = [] := by rw [Socket.unread, h]; rfl

theorem pieces_nil (h : ctx.socket.unread.length = 0) : ctx.socket.pieces = [] := by
  rw [List.length_eq_zero_iff, Socket.unread, List.flatten_eq_nil_iff] at h
  by_contra hne
  obtain ⟨piece, pieces, hp⟩ := List.exists_cons_of_ne_nil hne
  have hmem : piece ∈ ctx.socket.pieces := by rw [hp]; exact List.mem_cons_self
  exact ctx.socket.nonempty piece hmem (h piece hmem)

theorem exhausts_nil (hp : ctx.socket.pieces = []) (hm : maxBytes = 0 ∨ acc.length ≤ maxBytes)
    (hb : acc = [] ∨ ctx.maxRecvBufferBytes = 0 ∨ ctx.bufferedBytes ≤ ctx.maxRecvBufferBytes) :
    Exhausts alloc delim maxBytes ctx acc ↔ acc ≠ [] := by
  have hu := unread_nil hp
  constructor
  · intro h
    have := h.some
    rwa [hu, List.append_nil] at this
  · intro hne
    refine ⟨by rwa [hu, List.append_nil], ?_, ?_, fun n _ he => ?_, fun n hn => ?_⟩
    · rw [hu]
      exact hm
    · rw [hu]
      exact hb.resolve_left hne
    · rw [hp] at he
      exact absurd he (by simp [ReadEndsAt])
    · rw [hu] at hn
      exact absurd hn (Nat.not_lt_zero n)

theorem Misread.late (h : Misread delim maxBytes ctx acc) (hkept : ctx.socket.loss = none)
    (hl : (akTcpIsAlive ctx).1 = true) (hu : ctx.socket.unread.length = 0) : (∀ n, ¬ IsRecord delim acc n) ∧ (maxBytes = 0 ∨ acc.length < maxBytes) ∧
      (ctx.maxRecvBufferBytes = 0 ∨ ctx.bufferedBytes < ctx.maxRecvBufferBytes) := by
  have hp := pieces_nil hu
  rcases h with ⟨he, -⟩ | ⟨-, hnone, hm, hb⟩
  · have hdead := (poll_closed (alive_of_poll hl).1 hkept).mpr ⟨hp, he⟩
    rw [hl] at hdead
    exact absurd hdead (by simp)
  · rw [hu, Nat.add_zero] at hm hb
    rw [unread_nil hp, List.append_nil] at hnone
    exact ⟨hnone, hm, hb⟩

theorem Misread.closed (h : Misread delim maxBytes ctx acc) (hl : (akTcpIsAlive ctx).1 = true) :
    ∃ k, (polled ctx).socket.ending = .closed k := by
  rcases h with ⟨he, -⟩ | ⟨⟨k, he⟩, -⟩
  · exact polled_closed hl he
  · exact polled_closed hl he

theorem misread_step {s : Socket} {data : List UInt8} (hu : ctx.socket.unread = data ++ s.unread)
    (hending : s.ending = ctx.socket.ending) :
    Misread delim maxBytes ctx acc ↔ Misread delim maxBytes (after ctx s data.length) (acc ++ data) := by
  have hlen : ctx.socket.unread.length = data.length + s.unread.length := by rw [hu, List.length_append]
  simp only [Misread, after, hending, List.append_assoc, ← hu, List.length_append, hlen, Nat.add_assoc]

theorem not_misread_of_record {n : Nat} (hkept : ctx.socket.loss = none) (hl : (akTcpIsAlive ctx).1 = true) (hrec : IsRecord delim acc n) :
    ¬ (Exhausts alloc delim maxBytes ctx acc ∧ Misread delim maxBytes ctx acc) := by
  rintro ⟨hex, hmis⟩
  rcases Nat.eq_zero_or_pos ctx.socket.unread.length with hu | hu
  · exact (hmis.late hkept hl hu).1 n hrec
  · refine hex.silent 0 hu (Or.inl rfl) n ?_
    rwa [List.take_zero, List.append_nil]

/-- A receive leaves the loop where it was with respect to the whole stream. -/
theorem exhausts_step {s : Socket} {data : List UInt8} (hr : Reading delim maxBytes ctx acc)
    (hread : ReadOf (asks maxBytes ctx acc) ctx.socket.pieces data s.pieces) (hne : data ≠ [])
    (ha : alloc (acc.length + data.length) = true) :
    Exhausts alloc delim maxBytes ctx acc ↔ Exhausts alloc delim maxBytes (after ctx s data.length) (acc ++ data) := by
  have hu : ctx.socket.unread = data ++ s.unread := hread.flatten
  have hsame : acc ++ data ++ s.unread = acc ++ ctx.socket.unread := by rw [hu, List.append_assoc]
  have hlen : ctx.socket.unread.length = data.length + s.unread.length := by rw [hu, List.length_append]
  have hpos := List.length_pos_iff.mpr hne
  have htake (n : Nat) : acc ++ data ++ s.unread.take n = acc ++ ctx.socket.unread.take (data.length + n) := by
    rw [hu, List.take_length_add_append, List.append_assoc]
  constructor
  · intro h
    have hends {n : Nat} (hn : 0 < n) := readEndsAt_step (readOf_chunk h.fits h.budget hread) hn
    refine ⟨by rw [after, hsame]; exact h.some, ?_, ?_, fun n hn he => ?_, fun n hn he => ?_⟩
    · have := h.fits
      simp only [after, List.length_append]
      omega
    · have := h.budget
      simp only [after]
      omega
    · rw [List.length_append, Nat.add_assoc]
      refine h.granted _ (by omega) ((hends (by omega)).mpr (Or.inr ⟨by omega, ?_⟩))
      rwa [Nat.add_sub_cancel_left]
    · simp only [after, htake]
      simp only [after] at hn he
      refine h.silent _ (by omega) (Or.inr ((hends (by omega)).mpr ?_))
      rcases he with rfl | he
      · exact Or.inl rfl
      · by_cases hz : n = 0
        · exact Or.inl (by omega)
        · exact Or.inr ⟨by omega, by rwa [Nat.add_sub_cancel_left]⟩
  · intro h
    have hfits : maxBytes = 0 ∨ acc.length + ctx.socket.unread.length ≤ maxBytes := by
      have := h.fits
      simp only [after, List.length_append] at this
      omega
    have hbudget : ctx.maxRecvBufferBytes = 0 ∨
        ctx.bufferedBytes + ctx.socket.unread.length ≤ ctx.maxRecvBufferBytes := by
      have := h.budget
      simp only [after] at this
      omega
    have hends {n : Nat} (hn : 0 < n) := readEndsAt_step (readOf_chunk hfits hbudget hread) hn
    refine ⟨by rw [← hsame]; exact h.some, hfits, hbudget, fun n hn he => ?_, fun n hn he => ?_⟩
    · rcases (hends hn).mp he with rfl | ⟨hlt, he⟩
      · exact ha
      · have := h.granted (n - data.length) (by omega) he
        rwa [List.length_append, Nat.add_assoc, Nat.add_sub_cancel' hlt.le] at this
    · rcases Nat.eq_zero_or_pos n with rfl | hpos'
      · rw [List.take_zero, List.append_nil]
        exact findDelim_none hr.unfound
      · rcases (hends hpos').mp (he.resolve_left hpos'.ne') with rfl | ⟨hlt, he⟩
        · have := h.silent 0 (by simp only [after]; omega) (Or.inl rfl)
          simpa only [after, htake, Nat.add_zero] using this
        · have := h.silent (n - data.length) (by simp only [after]; omega) (Or.inr he)
          simpa only [after, htake, Nat.add_sub_cancel' hlt.le] using this

theorem not_wrong_found {i : Nat} {ctx' : TcpCtx} (hf : findDelim delim acc = some i) :
    ¬ Wrong delim ctx acc (some (.buffer (acc.take (i + delim.length)), ctx')) := by
  rintro ⟨out, ctx'', h, hw⟩
  simp only [Option.some.injEq, Prod.mk.injEq, Outcome.buffer.injEq] at h
  obtain ⟨rfl, -⟩ := h
  have hrec := findDelim_some hf
  exact hw ⟨_, hrec.append _, by rw [List.take_append_of_le_length hrec.le_length]⟩

/-- A receive that finds the end comes after a search in vain. -/
theorem misread_of_ended (ha : ctx.alive = true) (hkept : ctx.socket.loss = none) (hr : Reading delim maxBytes ctx acc)
    (hp : ctx.socket.pieces = []) {j : Nat} (hj : (polled ctx).socket.ending = .closed j) :
    ¬ OneRecord delim (acc ++ ctx.socket.unread) acc ∧ Misread delim maxBytes ctx acc := by
  have hnone := findDelim_none hr.unfound
  have hclosed : ∃ k, ctx.socket.ending = .closed (k + 1) := by
    rcases polled_ending hr.live with he | ⟨k, he, -⟩
    · cases j with
      | zero =>
          have hdead := (poll_closed ha hkept).mpr ⟨hp, he.symm.trans hj⟩
          rw [hr.live] at hdead
          exact absurd hdead (by simp)
      | succ k => exact ⟨k, he.symm.trans hj⟩
    · exact ⟨k, he⟩
  constructor
  · rintro ⟨n, hrec, -⟩
    rw [unread_nil hp, List.append_nil] at hrec
    exact hnone n hrec
  · refine Or.inr ⟨hclosed, ?_⟩
    rw [unread_nil hp, List.append_nil, List.length_nil, Nat.add_zero, Nat.add_zero]
    have hshort := hr.short
    have hroom := hr.room
    exact ⟨hnone, by omega, by omega⟩

/-- The loop returns something other than a record exactly when it runs out of
stream with a buffer that it did not get to search, or searched in vain. -/
theorem recvLoop_wrong_iff (ha : ctx.alive = true) (hkept : ctx.socket.loss = none)
    (hm : maxBytes = 0 ∨ acc.length ≤ maxBytes)
    (hb : acc = [] ∨ ctx.maxRecvBufferBytes = 0 ∨ ctx.bufferedBytes ≤ ctx.maxRecvBufferBytes) :
    Wrong delim ctx acc (recvLoop alloc delim maxBytes ctx acc) ↔
      Exhausts alloc delim maxBytes ctx acc ∧ Misread delim maxBytes ctx acc := by
  induction hk : ctx.socket.unread.length using Nat.strong_induction_on generalizing ctx acc with
  | _ k ih =>
      have hpass := recvLoop_pass alloc delim maxBytes ctx acc
      generalize recvLoop alloc delim maxBytes ctx acc = r at hpass
      cases hpass with
      | dead h =>
          obtain ⟨hp, he⟩ := (poll_closed ha hkept).mp h
          rw [wrong_finish, exhausts_nil hp hm hb, Misread, unread_nil hp, List.append_nil, oneRecord_self, he]
          simp
      | found i hl hf =>
          exact iff_of_false (not_wrong_found hf) (not_misread_of_record hkept hl (findDelim_some hf))
      | oversize hl hf hfull =>
          refine iff_of_false not_wrong_null ?_
          rintro ⟨hex, hmis⟩
          have := hex.fits
          have := (hmis.late hkept hl (by omega)).2.1
          omega
      | full hl hf hm hfull =>
          refine iff_of_false not_wrong_null ?_
          rintro ⟨hex, hmis⟩
          have := hex.budget
          have := (hmis.late hkept hl (by omega)).2.2
          omega
      | blocked hr h =>
          refine iff_of_false not_wrong_none ?_
          rintro ⟨-, hmis⟩
          obtain ⟨k, he⟩ := hmis.closed hr.live
          rw [recv_other.1 h] at he
          exact absurd he (by simp)
      | failed error hr h =>
          refine iff_of_false not_wrong_null ?_
          rintro ⟨-, hmis⟩
          obtain ⟨k, he⟩ := hmis.closed hr.live
          rw [recv_other.2 error h] at he
          exact absurd he (by simp)
      | ended socket hr h =>
          obtain ⟨hp, -, j, hj⟩ := recv_nil (asks_pos hr) h
          rw [polled_pieces] at hp
          obtain ⟨hno, hmis⟩ := misread_of_ended ha hkept hr hp hj
          rw [wrong_finish, exhausts_nil hp hm hb]
          exact and_congr_right fun _ => iff_of_true hno hmis
      | refused data socket hr hne h hrefused =>
          refine iff_of_false not_wrong_null ?_
          rintro ⟨hex, -⟩
          obtain ⟨hread, -⟩ := readOf_recv hne h
          rw [polled_pieces] at hread
          have hpos := List.length_pos_iff.mpr hne
          have hend := (readEndsAt_step (readOf_chunk hex.fits hex.budget hread) hpos).mpr (Or.inl rfl)
          rw [hex.granted _ hpos hend] at hrefused
          exact absurd hrefused (by simp)
      | again data socket hr hne h hgranted =>
          obtain ⟨hread, hending, hloss⟩ := readOf_recv hne h
          have hp : ctx.socket.pieces ≠ [] := by
            intro hnil
            rw [polled_pieces, hnil] at hread
            cases hread
          rw [polled_waiting ha hkept hp] at hread hending hloss
          have hu : ctx.socket.unread = data ++ socket.unread := hread.flatten
          have hlen : ctx.socket.unread.length = data.length + socket.unread.length := by rw [hu, List.length_append]
          have hpos := List.length_pos_iff.mpr hne
          have hle := hread.length_le
          have hmax : maxBytes = 0 ∨ (acc ++ data).length ≤ maxBytes := by
            rcases Nat.eq_zero_or_pos maxBytes with hz | hpos
            · exact Or.inl hz
            · have := asks_max hr hpos
              rw [List.length_append]
              omega
          have hbudget : ctx.maxRecvBufferBytes = 0 ∨ ctx.bufferedBytes + data.length ≤ ctx.maxRecvBufferBytes := by
            rcases Nat.eq_zero_or_pos ctx.maxRecvBufferBytes with hz | hpos
            · exact Or.inl hz
            · have := asks_budget hr hpos
              omega
          have hrest : Wrong delim (after ctx socket data.length) (acc ++ data) _ ↔ _ :=
            ih socket.unread.length (by omega) ha (hloss.trans hkept) hmax (Or.inr hbudget) rfl
          rw [exhausts_step hr hread hne hgranted, misread_step hu hending, ← hrest]
          rw [Wrong, Wrong, after, List.append_assoc, ← hu]

theorem recvLoop_returns {k : Nat} (he : ctx.socket.ending = .closed k) :
    ∃ r, recvLoop alloc delim maxBytes ctx acc = some r := by
  induction hu : ctx.socket.unread.length using Nat.strong_induction_on generalizing ctx acc k with
  | _ n ih =>
      have hpass := recvLoop_pass alloc delim maxBytes ctx acc
      generalize recvLoop alloc delim maxBytes ctx acc = r at hpass
      cases hpass with
      | blocked hr h =>
          obtain ⟨j, hj⟩ := polled_closed hr.live he
          rw [recv_other.1 h] at hj
          exact absurd hj (by simp)
      | again data socket hr hne h hgranted =>
          obtain ⟨hread, hending, hloss⟩ := readOf_recv hne h
          obtain ⟨j, hj⟩ := polled_closed hr.live he
          have hflat := congrArg List.length hread.flatten
          have hpos := List.length_pos_iff.mpr hne
          rw [← Socket.unread, polled_unread, List.length_append, ← Socket.unread] at hflat
          exact ih socket.unread.length (by omega) (hending.trans hj) rfl
      | _ => exact ⟨_, rfl⟩

end Loop

/-- The connection is open, the peer closes or the connection is lost after some
bytes, and the call takes in all of them and returns them as they are, although
they are not one record. -/
def RunsOut (alloc : Nat → Bool) (ctx : TcpCtx) (delim : List UInt8) (maxBytes : Nat) : Prop :=
  ctx.alive = true ∧ alloc 256 = true ∧ Exhausts alloc delim maxBytes (upToLoss maxBytes ctx) [] ∧
    Misread delim maxBytes (upToLoss maxBytes ctx) []

theorem oneRecord_beginning {delim s t out : List UInt8} (hout : out <+: s) (hst : s <+: t) :
    OneRecord delim s out ↔ OneRecord delim t out := by
  obtain ⟨u, rfl⟩ := hst
  constructor
  · rintro ⟨n, hn, rfl⟩
    exact ⟨n, hn.append u, (List.take_append_of_le_length hn.le_length).symm⟩
  · rintro ⟨n, hn, rfl⟩
    have hle := hout.length_le
    rw [List.length_take, Nat.min_eq_left hn.le_length] at hle
    have hrec := hn.take hle
    rw [List.take_left] at hrec
    exact ⟨n, hrec, List.take_append_of_le_length hle⟩

theorem wrong_iff_outcome {delim acc : List UInt8} {ctx : TcpCtx} {r : Option (Outcome × TcpCtx)} :
    Wrong delim ctx acc r ↔
      ∃ out, outcome r = some (.buffer out) ∧ ¬ OneRecord delim (acc ++ ctx.socket.unread) out := by
  rw [Wrong, outcome]
  constructor
  · rintro ⟨out, ctx', rfl, hw⟩
    exact ⟨out, rfl, hw⟩
  · rintro ⟨out, h, hw⟩
    obtain ⟨⟨_, ctx'⟩, rfl, rfl⟩ := Option.map_eq_some_iff.mp h
    exact ⟨out, ctx', rfl, hw⟩

/-- A call returns a record of the stream exactly when it returns one of what it
gets to hear of the stream. -/
theorem wrong_upToLoss {alloc : Nat → Bool} {delim : List UInt8} {maxBytes : Nat} {ctx : TcpCtx}
    (ha : ctx.alive = true) : Wrong delim ctx [] (recvLoop alloc delim maxBytes ctx []) ↔
      Wrong delim (upToLoss maxBytes ctx) [] (recvLoop alloc delim maxBytes (upToLoss maxBytes ctx) []) := by
  rw [wrong_iff_outcome, wrong_iff_outcome, recvLoop_upToLoss ha]
  refine exists_congr fun out => and_congr_right fun h => not_congr ?_
  obtain ⟨⟨_, ctx'⟩, hloop, rfl⟩ := Option.map_eq_some_iff.mp h
  exact (oneRecord_beginning (recvLoop_beginning hloop) (upToLoss_beginning maxBytes ctx)).symm

theorem recvLoop_not_alive {alloc : Nat → Bool} {delim : List UInt8} {maxBytes : Nat} {ctx : TcpCtx}
    (h : ctx.alive = false) : recvLoop alloc delim maxBytes ctx [] = some (.null none, ctx) := by
  have hdead : akTcpIsAlive ctx = (false, ctx) := by rw [akTcpIsAlive, h]; rfl
  rw [recvLoop, hdead]
  rfl

theorem akTcpRecvUntil_fails (h : delim.length = 0 ∨ alloc 256 = false) :
    ∃ error, akTcpRecvUntil alloc ctx delim maxBytes = some (.null error, ctx) := by
  rw [akTcpRecvUntil]
  split_ifs with h1 h2
  · exact ⟨_, rfl⟩
  · exact ⟨_, rfl⟩
  · exact absurd h (by simp_all)

theorem not_runsOut_of_fails (h : delim.length = 0 ∨ alloc 256 = false) : ¬RunsOut alloc ctx delim maxBytes := by
  rintro ⟨-, halloc, hex, -⟩
  rcases h with hd | hd
  · have hsome := hex.some
    rw [List.nil_append] at hsome
    refine hex.silent 0 (List.length_pos_iff.mpr hsome) (Or.inl rfl) 0 ⟨Nat.zero_le _, ?_, by simp⟩
    rw [List.length_eq_zero_iff.mp hd]
    exact List.nil_suffix
  · rw [hd] at halloc
    exact absurd halloc (by simp)

/-- Past its checks a call returns a record, or NULL, exactly if its loop does. -/
theorem returnsRecord_iff_not_wrong
    (hcall : akTcpRecvUntil alloc ctx delim maxBytes = recvLoop alloc delim maxBytes ctx []) :
    ReturnsRecord alloc ctx delim maxBytes ↔ ¬Wrong delim ctx [] (recvLoop alloc delim maxBytes ctx []) := by
  constructor
  · rintro ⟨hrec, -⟩ ⟨out, ctx', h, hw⟩
    exact hw (hrec out ctx' (hcall.trans h))
  · intro hw
    have hrec (out : List UInt8) (ctx' : TcpCtx)
        (h : akTcpRecvUntil alloc ctx delim maxBytes = some (.buffer out, ctx')) :
        OneRecord delim ctx.socket.unread out := by
      by_contra hno
      exact hw ⟨out, ctx', hcall.symm.trans h, hno⟩
    refine ⟨hrec, fun k he hnone => ?_⟩
    have hreturns : ∃ r, recvLoop alloc delim maxBytes ctx [] = some r := recvLoop_returns he
    obtain ⟨⟨out, ctx'⟩, h⟩ := hreturns
    cases out with
    | buffer out =>
        obtain ⟨n, hn, -⟩ := hrec out ctx' (hcall.trans h)
        exact absurd hn (hnone n)
    | null error => exact ⟨error, ctx', hcall.trans h⟩

end Ak24.TcpRecord
