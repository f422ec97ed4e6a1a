import Ak24.TcpSockets
import Ak24.Transition

namespace Ak24.TcpConnect

open Dialogs Objects TcpSockets Transition
open TcpClientModel (ClientState)

inductive TcpError
  | ok
  | network
  | memory
  | tlsHandshake
  deriving DecidableEq, Repr

/-- The fields of `ak_tcp_client_internal_t` that `client_do_connect` only
reads. Of the TLS context it asks whether there is one. -/
structure Config where
  host : String
  port : Nat
  connectTimeoutMs : Nat
  enableNodelay : Bool
  socketRecvBuffer : Nat
  socketSendBuffer : Nat
  recvTimeoutMs : Nat
  sendTimeoutMs : Nat
  enableKeepalive : Bool
  keepaliveIdleSec : Int
  keepaliveIntervalSec : Int
  keepaliveCount : Int
  useTls : Bool
  sslCtx : Bool
  sniHostname : Option String
  reconnectDelayMs : Nat

def freeAll : List Nat → Os Unit
  | [] => pure ()
  | id :: ids => do
    sys (.free id)
    freeAll ids

def akTcpCtxNew (fd : Nat) : Os (Option Nat) := do
  match ← sys (.alloc .memory) with
  | none => pure none
  | some ctx =>
    match ← sys (.alloc .buffer) with
    | none =>
      freeAll [ctx]
      pure none
    | some readBuffer =>
      match ← sys (.alloc .buffer) with
      | none =>
        freeAll [readBuffer, ctx]
        pure none
      | some writeBuffer =>
        match ← sys (.alloc .context) with
        | none =>
          freeAll [writeBuffer, readBuffer, ctx]
          pure none
        | some metadata =>
          sys (.store ctx ⟨true, some fd, none, readBuffer, writeBuffer, metadata⟩)
          pure (some ctx)

def akTcpTlsShutdown (ssl : Nat) : Os Unit := do
  let result ← sys (.sslShutdown ssl)
  if result = 0 then
    let _ ← sys (.sslShutdown ssl)
  pure ()

def freeSsl : Option Nat → Os Unit
  | none => pure ()
  | some ssl => do
    akTcpTlsShutdown ssl
    sys (.sslFree ssl)

def closeFd : Option Nat → Os Unit
  | none => pure ()
  | some fd => akTcpSocketClose fd

def akTcpCtxFree (ctx : Nat) : Os Unit := do
  let c ← sys (.load ctx)
  freeSsl c.ssl
  closeFd c.fd
  freeAll [c.readBuffer, c.writeBuffer, c.metadata, ctx]

def akTcpClose (ctx : Nat) : Os Unit := do
  let c ← sys (.load ctx)
  if c.alive then
    freeSsl c.ssl
    closeFd c.fd
    sys (.store ctx { c with alive := false, ssl := none, fd := none })
  else pure ()

section Tls

variable (ssl fd : Nat) (error : Option ErrorText)

def tlsRefuse (text : ErrorText) : Os (Option Nat × Option ErrorText) := do
  sys (.sslFree ssl)
  pure (none, some text)

def tlsHandshake : Os (Option Nat × Option ErrorText) := do
  if ← sys (.sslSetFd ssl fd) then
    let result ← sys (.sslConnect ssl)
    if result = 1 then pure (some ssl, error)
    else
      match ← sys (.sslGetError ssl result) with
      | .zeroReturn => tlsRefuse ssl (.text "TLS handshake: connection closed")
      | .wantReadWrite => tlsRefuse ssl (.text "TLS handshake: would block (timeout?)")
      | .syscall => tlsRefuse ssl (.text "TLS handshake: system call error")
      | .ssl =>
        let text ← sys .sslErrorString
        tlsRefuse ssl (.ssl text)
      | .other => tlsRefuse ssl (.text "TLS handshake failed")
  else
    let text ← sys .sslErrorString
    tlsRefuse ssl (.ssl text)

def akTcpTlsConnect (sslCtx : Bool) (sniHostname : Option String) : Os (Option Nat × Option ErrorText) :=
  if !sslCtx then pure (none, some (.text "SSL context is NULL"))
  else do
    match ← sys .sslNew with
    | none =>
      let text ← sys .sslErrorString
      pure (none, some (.ssl text))
    | some ssl =>
      match sniHostname with
      | none => tlsHandshake ssl fd error
      | some name =>
        if ← sys (.sslSetHostName ssl name) then tlsHandshake ssl fd error
        else tlsRefuse ssl (.text "Failed to set SNI hostname")

end Tls

def warned (enabled : Bool) (error : Option ErrorText) (set : Option ErrorText → Os (Int × Option ErrorText)) :
    Os (Option ErrorText) :=
  if enabled then do
    let r ← set error
    pure r.2
  else pure error

def freeCtx : Option Nat → Os Unit
  | none => pure ()
  | some ctx => akTcpCtxFree ctx

def publish (cfg : Config) (ctx : Nat) : Os Unit := do
  let internal ← sys .internal
  freeCtx internal.ctx
  sys (.setInternal ⟨some ctx, .connected, (internal.successfulConnections + 1) % 2 ^ 64, cfg.reconnectDelayMs, 0⟩)

def setUp (cfg : Config) (fd : Nat) (error : Option ErrorText) : Os (TcpError × Option ErrorText) := do
  match ← akTcpCtxNew fd with
  | none =>
    akTcpSocketClose fd
    pure (.memory, some (.text "Failed to create connection context"))
  | some ctx =>
    if cfg.useTls then
      let r ← akTcpTlsConnect fd error cfg.sslCtx (cfg.sniHostname.getD cfg.host)
      match r.1 with
      | none =>
        akTcpCtxFree ctx
        pure (.tlsHandshake, r.2)
      | some ssl =>
        let c ← sys (.load ctx)
        sys (.store ctx { c with ssl := some ssl })
        publish cfg ctx
        pure (.ok, r.2)
    else
      publish cfg ctx
      pure (.ok, error)

def clientDoConnect (cfg : Config) (error : Option ErrorText) : Os (TcpError × Option ErrorText) := do
  let made ← akTcpSocketCreate error
  match made.1 with
  | none => pure (.network, made.2)
  | some fd =>
    let error ← warned true made.2 (akTcpSocketSetReuseaddr fd · true)
    let error ← warned cfg.enableNodelay error (akTcpSocketSetNodelay fd · true)
    let error ← warned (0 < cfg.socketRecvBuffer || 0 < cfg.socketSendBuffer) error
      (akTcpSocketSetBuffers fd · cfg.socketRecvBuffer cfg.socketSendBuffer)
    let r ← akTcpSocketConnect fd error (some cfg.host) cfg.port cfg.connectTimeoutMs
    if r.1 ≠ 0 then
      akTcpSocketClose fd
      pure (.network, r.2)
    else
      let error ← warned (0 < cfg.recvTimeoutMs || 0 < cfg.sendTimeoutMs) r.2
        (akTcpSocketSetTimeout fd · cfg.recvTimeoutMs cfg.sendTimeoutMs)
      let error ← warned cfg.enableKeepalive error
        (akTcpSocketSetKeepalive fd · cfg.keepaliveIdleSec cfg.keepaliveIntervalSec cfg.keepaliveCount)
      setUp cfg fd error

def closeCtx : Option Nat → Os Unit
  | none => pure ()
  | some ctx => akTcpClose ctx

def disconnectSection : Os Unit := do
  let internal ← sys .internal
  closeCtx internal.ctx
  freeCtx internal.ctx
  sys (.setInternal { internal with ctx := none, state := .disconnected })

section Calls

variable {α : Type} {Q : α → World → Prop} {w w' w'' : World} {l l' : List Nat} {i : Nat} {o : Object}

structure Adds (l : List Nat) (w w' : World) : Prop where
  old : ∀ i ∉ l, w'.objects.cells i = w.objects.cells i
  fresh : ∀ i ∈ l, w.objects.cells i = none
  internal : w'.internal = w.internal
  refusals : w.refusals ≤ w'.refusals

structure Frees (l : List Nat) (w w' : World) : Prop where
  cells : ∀ i, w'.objects.cells i = if i ∈ l then none else w.objects.cells i
  internal : w'.internal = w.internal
  refusals : w.refusals = w'.refusals

theorem Adds.refl : Adds [] w w := ⟨fun _ _ => rfl, nofun, rfl, le_rfl⟩

theorem Adds.trans (h : Adds l w w') (h' : Adds l' w' w'') : Adds (l ++ l') w w'' := by
  refine ⟨?_, ?_, h'.internal.trans h.internal, h.refusals.trans h'.refusals⟩
  · intro i hi
    rw [List.mem_append, not_or] at hi
    rw [h'.old i hi.2, h.old i hi.1]
  · intro i hi
    by_cases hil : i ∈ l
    · exact h.fresh i hil
    · rw [← h.old i hil]
      exact h'.fresh i ((List.mem_append.mp hi).resolve_left hil)

theorem Adds.on {fd : Nat} (h : Adds l w w') (hfd : fd ∈ l) (hon : On fd w' w'') : Adds l w w'' := by
  refine ⟨?_, h.fresh, hon.internal.trans h.internal, h.refusals.trans hon.refusals⟩
  intro i hi
  rw [hon.others i (ne_of_mem_of_not_mem hfd hi).symm, h.old i hi]

theorem Adds.of_mem (h : Adds l w w') (hmem : ∀ i, i ∈ l' ↔ i ∈ l) : Adds l' w w' :=
  ⟨fun i hi => h.old i (mt (hmem i).mpr hi), fun i hi => h.fresh i ((hmem i).mp hi), h.internal, h.refusals⟩

theorem Adds.keeps (h : Adds l w w') (hi : w.objects.cells i = some o) : w'.objects.cells i = some o := by
  rw [h.old i, hi]
  intro hil
  rw [h.fresh i hil] at hi
  cases hi

theorem Adds.frees {l'' : List Nat} (h : Adds l w w') (hfrees : Frees l' w' w'') (hl : ∀ i ∈ l, i ∈ l' ∨ i ∈ l'')
    (hl' : ∀ i ∈ l', i ∈ l) (hl'' : ∀ i ∈ l'', i ∈ l) : Adds l'' w w'' := by
  refine ⟨?_, fun i hi => h.fresh i (hl'' i hi), hfrees.internal.trans h.internal,
    h.refusals.trans hfrees.refusals.le⟩
  intro i hi
  rw [hfrees.cells i]
  split_ifs with hil
  · rw [h.fresh i (hl' i hil)]
  · refine h.old i fun hmem => ?_
    exact (hl i hmem).elim hil hi

theorem Frees.refl : Frees [] w w := ⟨fun _ => by rw [if_neg List.not_mem_nil], rfl, rfl⟩

theorem Frees.trans (h : Frees l w w') (h' : Frees l' w' w'') : Frees (l ++ l') w w'' := by
  refine ⟨?_, h'.internal.trans h.internal, h.refusals.trans h'.refusals⟩
  intro i
  rw [h'.cells i, h.cells i]
  simp only [List.mem_append]
  split_ifs <;> tauto

theorem Frees.keeps (h : Frees l w w') (hi : i ∉ l) : w'.objects.cells i = w.objects.cells i := by
  rw [h.cells i, if_neg hi]

theorem alloc_adds (w : World) (o : Object) : Adds [w.objects.next] w { w with objects := w.objects.alloc o } := by
  refine ⟨?_, ?_, rfl, le_rfl⟩
  · intro i hi
    exact Heap.alloc_of_ne (List.ne_of_not_mem_cons hi)
  · intro i hi
    rw [List.mem_singleton.mp hi, w.objects.fresh _ le_rfl]

theorem free_frees (w : World) (i : Nat) : Frees [i] w { w with objects := w.objects.free i } := by
  refine ⟨?_, rfl, rfl⟩
  intro j
  by_cases hj : j = i
  · rw [hj, Heap.free_self, if_pos (List.mem_singleton.mpr rfl)]
  · rw [Heap.free_of_ne hj, if_neg (by simpa using hj)]

theorem wp_alloc {f : Option Nat → Os α} (hnone : wp env (f none) Q w)
    (hsome : ∀ id w', Adds [id] w w' → w'.objects.cells id = some o → wp env (f (some id)) Q w') :
    wp env (sys (.alloc o) >>= f) Q w := by
  refine wp_step trivial fun id w' hreply => ?_
  cases id with
  | none =>
      cases hreply
      exact hnone
  | some id =>
      obtain ⟨rfl, rfl⟩ := hreply
      exact hsome _ _ (alloc_adds w o) (Heap.alloc_self ..)

theorem wp_sslNew {f : Option Nat → Os α} (hnone : wp env (f none) Q w)
    (hsome : ∀ ssl w', Adds [ssl] w w' → w'.objects.cells ssl = some .ssl → wp env (f (some ssl)) Q w') :
    wp env (sys .sslNew >>= f) Q w := by
  refine wp_step trivial fun ssl w' hreply => ?_
  cases ssl with
  | none =>
      cases hreply
      exact hnone
  | some ssl =>
      obtain ⟨rfl, rfl⟩ := hreply
      exact hsome _ _ (alloc_adds w .ssl) (Heap.alloc_self ..)

theorem wp_load {ctx : Nat} {c : Ctx} {f : Ctx → Os α} (hctx : w.objects.cells ctx = some (.ctx c))
    (h : wp env (f c) Q w) : wp env (sys (.load ctx) >>= f) Q w := by
  refine wp_step ⟨c, hctx⟩ fun c' w' hreply => ?_
  obtain ⟨rfl, hc'⟩ := hreply
  rw [hctx] at hc'
  cases hc'
  exact h

theorem wp_close {fd : Nat} {s : Socket} {Q : Unit → World → Prop} (hs : w.objects.cells fd = some (.socket s))
    (h : ∀ w', Frees [fd] w w' → Q () w') : wp env (akTcpSocketClose fd) Q w := by
  refine wp_step ⟨s, hs⟩ fun _ w' hreply => ?_
  cases hreply
  refine wp_ask ⟨s, hs⟩ fun _ w' hreply => ?_
  cases hreply
  exact h _ (free_frees _ _)

theorem wp_sslFree {ssl : Nat} {Q : Unit → World → Prop} (hssl : w.objects.cells ssl = some .ssl)
    (h : ∀ w', Frees [ssl] w w' → Q () w') : wp env (sys (.sslFree ssl)) Q w := by
  refine wp_ask hssl fun _ w' hreply => ?_
  cases hreply
  exact h _ (free_frees _ _)

theorem wp_tlsShutdown {ssl : Nat} {Q : Unit → World → Prop} (hssl : w.objects.cells ssl = some .ssl) (h : Q () w) :
    wp env (akTcpTlsShutdown ssl) Q w := by
  refine wp_step hssl fun result w' hreply => ?_
  cases hreply
  split_ifs
  · refine wp_step hssl fun _ w' hreply => ?_
    cases hreply
    exact h
  · exact h

/-- Memory that `AK24_FREE` and the free functions of buffers and contexts take. -/
def Plain (o : Object) : Prop := o = .memory ∨ o = .buffer ∨ o = .context ∨ ∃ c, o = .ctx c

theorem wp_freeAll {Q : Unit → World → Prop} (ids : List Nat)
    (hlive : ∀ id ∈ ids, ∃ o, w.objects.cells id = some o ∧ Plain o) (hnodup : ids.Nodup)
    (h : ∀ w', Frees ids w w' → Q () w') : wp env (freeAll ids) Q w := by
  induction ids generalizing w with
  | nil => exact h w Frees.refl
  | cons id ids ih =>
      refine wp_step (hlive id (List.mem_cons_self ..)) fun _ w₁ hreply => ?_
      have hfree : Frees [id] w w₁ := by
        cases hreply
        exact free_frees w id
      obtain ⟨hnew, hnodup⟩ := List.nodup_cons.mp hnodup
      refine ih (fun id' hid' => ?_) hnodup fun w' hfrees => h w' (hfree.trans hfrees)
      rw [hfree.keeps (by simpa using ne_of_mem_of_not_mem hid' hnew)]
      exact hlive id' (List.mem_cons_of_mem _ hid')

end Calls

def parts (ctx : Nat) (c : Ctx) : List Nat :=
  c.ssl.toList ++ (c.fd.toList ++ [c.readBuffer, c.writeBuffer, c.metadata, ctx])

structure Whole (cells : Nat → Option Object) (ctx : Nat) (c : Ctx) : Prop where
  ctx : cells ctx = some (.ctx c)
  fd : ∀ fd ∈ c.fd, ∃ s, cells fd = some (.socket s)
  ssl : ∀ ssl ∈ c.ssl, cells ssl = some .ssl
  readBuffer : cells c.readBuffer = some .buffer
  writeBuffer : cells c.writeBuffer = some .buffer
  metadata : cells c.metadata = some .context
  distinct : c.readBuffer ≠ c.writeBuffer

/-- The objects are those of `base` and the parts of one connection, if there is one. -/
def Held (base : Nat → Option Object) (ctx : Option Nat) (cells : Nat → Option Object) : Prop :=
  match ctx with
  | none => cells = base
  | some ctx => ∃ c, Whole cells ctx c ∧ (∀ i ∉ parts ctx c, cells i = base i) ∧ ∀ i ∈ parts ctx c, base i = none

section Contexts

variable {w w' : World} {ctx i j : Nat} {c : Ctx} {o o' : Object} {cells : Nat → Option Object} {l : List Nat}

theorem ne_of_cells (hi : cells i = some o) (hj : cells j = some o') (hne : o ≠ o') : i ≠ j := by
  rintro rfl
  rw [hi] at hj
  exact hne (Option.some.inj hj)

theorem Whole.live (h : Whole cells ctx c) (hi : i ∈ parts ctx c) : cells i ≠ none := by
  simp only [parts, List.mem_append, Option.mem_toList, List.mem_cons, List.not_mem_nil, or_false] at hi
  rcases hi with hi | hi | rfl | rfl | rfl | rfl
  · rw [h.ssl i hi]
    nofun
  · obtain ⟨s, hs⟩ := h.fd i hi
    rw [hs]
    nofun
  · rw [h.readBuffer]
    nofun
  · rw [h.writeBuffer]
    nofun
  · rw [h.metadata]
    nofun
  · rw [h.ctx]
    nofun

theorem Whole.congr {cells' : Nat → Option Object} (h : Whole cells ctx c)
    (hcells : ∀ i ∈ parts ctx c, cells' i = cells i) : Whole cells' ctx c := by
  simp only [parts, List.mem_append, Option.mem_toList, List.mem_cons, List.not_mem_nil, or_false] at hcells
  refine ⟨?_, fun fd hfd => ?_, fun ssl hssl => ?_, ?_, ?_, ?_, h.distinct⟩
  · rw [hcells ctx (by tauto), h.ctx]
  · rw [hcells fd (by tauto)]
    exact h.fd fd hfd
  · rw [hcells ssl (by tauto), h.ssl ssl hssl]
  · rw [hcells _ (by tauto), h.readBuffer]
  · rw [hcells _ (by tauto), h.writeBuffer]
  · rw [hcells _ (by tauto), h.metadata]

theorem wp_freeSsl {ssl : Option Nat} {Q : Unit → World → Prop}
    (hssl : ∀ i ∈ ssl, w.objects.cells i = some .ssl) (h : ∀ w', Frees ssl.toList w w' → Q () w') :
    wp env (freeSsl ssl) Q w := by
  cases ssl with
  | none => exact h w Frees.refl
  | some ssl =>
      refine wp_bind (wp_tlsShutdown (hssl ssl rfl) ?_)
      exact wp_sslFree (hssl ssl rfl) h

theorem wp_closeFd {fd : Option Nat} {Q : Unit → World → Prop}
    (hfd : ∀ i ∈ fd, ∃ s, w.objects.cells i = some (.socket s)) (h : ∀ w', Frees fd.toList w w' → Q () w') :
    wp env (closeFd fd) Q w := by
  cases fd with
  | none => exact h w Frees.refl
  | some fd =>
      obtain ⟨s, hs⟩ := hfd fd rfl
      exact wp_close hs h

theorem wp_release {α : Type} {f : Unit → Os α} {Q : α → World → Prop} (hwhole : Whole w.objects.cells ctx c)
    (h : ∀ w', Frees (c.ssl.toList ++ c.fd.toList) w w' → w'.objects.cells ctx = some (.ctx c) →
      w'.objects.cells c.readBuffer = some .buffer → w'.objects.cells c.writeBuffer = some .buffer →
      w'.objects.cells c.metadata = some .context → wp env (f ()) Q w') :
    wp env (freeSsl c.ssl >>= fun _ => closeFd c.fd >>= f) Q w := by
  have hother : ∀ i o, w.objects.cells i = some o → o ≠ .ssl → (∀ s, o ≠ .socket s) →
      i ∉ c.ssl.toList ++ c.fd.toList := by
    intro i o hi hssl hsocket hmem
    rcases List.mem_append.mp hmem with hmem | hmem
    · rw [hwhole.ssl i (Option.mem_toList.mp hmem), Option.some.injEq] at hi
      exact hssl hi.symm
    · obtain ⟨s, hs⟩ := hwhole.fd i (Option.mem_toList.mp hmem)
      rw [hs, Option.some.injEq] at hi
      exact hsocket s hi.symm
  refine wp_bind (wp_freeSsl hwhole.ssl fun w₁ hfrees₁ => ?_)
  have hfd : ∀ i ∈ c.fd, ∃ s, w₁.objects.cells i = some (.socket s) := by
    intro i hi
    obtain ⟨s, hs⟩ := hwhole.fd i hi
    refine ⟨s, ?_⟩
    rw [hfrees₁.keeps, hs]
    intro hmem
    rw [hwhole.ssl i (Option.mem_toList.mp hmem)] at hs
    cases hs
  refine wp_bind (wp_closeFd hfd fun w₂ hfrees₂ => ?_)
  have hfrees := hfrees₁.trans hfrees₂
  refine h w₂ hfrees ?_ ?_ ?_ ?_
  · rw [hfrees.keeps (hother _ _ hwhole.ctx nofun nofun), hwhole.ctx]
  · rw [hfrees.keeps (hother _ _ hwhole.readBuffer nofun nofun), hwhole.readBuffer]
  · rw [hfrees.keeps (hother _ _ hwhole.writeBuffer nofun nofun), hwhole.writeBuffer]
  · rw [hfrees.keeps (hother _ _ hwhole.metadata nofun nofun), hwhole.metadata]

/-- `ak_tcp_ctx_free` frees the context with all its parts, each once. -/
theorem wp_ctxFree {Q : Unit → World → Prop} (hwhole : Whole w.objects.cells ctx c)
    (h : ∀ w', Frees (parts ctx c) w w' → Q () w') : wp env (akTcpCtxFree ctx) Q w := by
  refine wp_load hwhole.ctx ?_
  refine wp_release hwhole fun w₁ hfrees₁ hctx hread hwrite hmeta => ?_
  refine wp_freeAll _ ?_ ?_ ?_
  · intro i hi
    simp only [List.mem_cons, List.not_mem_nil, or_false] at hi
    rcases hi with rfl | rfl | rfl | rfl
    · exact ⟨_, hread, .inr (.inl rfl)⟩
    · exact ⟨_, hwrite, .inr (.inl rfl)⟩
    · exact ⟨_, hmeta, .inr (.inr (.inl rfl))⟩
    · exact ⟨_, hctx, .inr (.inr (.inr ⟨c, rfl⟩))⟩
  · simp only [List.nodup_cons, List.mem_cons, List.not_mem_nil, or_false, not_or, not_false_eq_true,
      List.nodup_nil, and_true]
    exact ⟨⟨hwhole.distinct, ne_of_cells hread hmeta nofun, ne_of_cells hread hctx nofun⟩,
      ⟨ne_of_cells hwrite hmeta nofun, ne_of_cells hwrite hctx nofun⟩, ne_of_cells hmeta hctx nofun⟩
  · intro w₂ hfrees₂
    refine h w₂ ?_
    rw [parts, ← List.append_assoc]
    exact hfrees₁.trans hfrees₂

theorem wp_ctxNew {fd : Nat} {Q : Option Nat → World → Prop} (hnone : ∀ w', Adds [] w w' → Q none w')
    (hsome : ∀ ctx c w', Adds [ctx, c.readBuffer, c.writeBuffer, c.metadata] w w' → c.fd = some fd → c.ssl = none →
      w'.objects.cells ctx = some (.ctx c) → w'.objects.cells c.readBuffer = some .buffer →
      w'.objects.cells c.writeBuffer = some .buffer → w'.objects.cells c.metadata = some .context →
      c.readBuffer ≠ c.writeBuffer → Q (some ctx) w') :
    wp env (akTcpCtxNew fd) Q w := by
  refine wp_alloc (hnone w Adds.refl) fun ctx w₁ hadds₁ hctx₁ => ?_
  refine wp_alloc ?_ fun readBuffer w₂ hadds₂ hread₂ => ?_
  · refine wp_bind (wp_freeAll _ ?_ (List.nodup_singleton _) fun w' hfrees => ?_)
    · intro i hi
      rw [List.mem_singleton.mp hi]
      exact ⟨_, hctx₁, .inl rfl⟩
    · exact hnone w' (hadds₁.frees hfrees (by simp) (by simp) (by simp))
  have hctx₂ := hadds₂.keeps hctx₁
  have hne₂ := ne_of_cells hread₂ hctx₂ nofun
  refine wp_alloc ?_ fun writeBuffer w₃ hadds₃ hwrite₃ => ?_
  · refine wp_bind (wp_freeAll _ ?_ (by simpa using hne₂) fun w' hfrees => ?_)
    · intro i hi
      simp only [List.mem_cons, List.not_mem_nil, or_false] at hi
      rcases hi with rfl | rfl
      · exact ⟨_, hread₂, .inr (.inl rfl)⟩
      · exact ⟨_, hctx₂, .inl rfl⟩
    · exact hnone w' ((hadds₁.trans hadds₂).frees hfrees (by simp) (by simp) (by simp))
  have hctx₃ := hadds₃.keeps hctx₂
  have hread₃ := hadds₃.keeps hread₂
  have hdistinct : readBuffer ≠ writeBuffer := by
    rintro rfl
    rw [hadds₃.fresh _ (List.mem_singleton.mpr rfl)] at hread₂
    cases hread₂
  have hne₃ := ne_of_cells hwrite₃ hctx₃ nofun
  refine wp_alloc ?_ fun metadata w₄ hadds₄ hmeta₄ => ?_
  · refine wp_bind (wp_freeAll _ ?_ (by simp [hdistinct.symm, hne₂, hne₃]) fun w' hfrees => ?_)
    · intro i hi
      simp only [List.mem_cons, List.not_mem_nil, or_false] at hi
      rcases hi with rfl | rfl | rfl
      · exact ⟨_, hwrite₃, .inr (.inl rfl)⟩
      · exact ⟨_, hread₃, .inr (.inl rfl)⟩
      · exact ⟨_, hctx₃, .inl rfl⟩
    · exact hnone w' (((hadds₁.trans hadds₂).trans hadds₃).frees hfrees (by simp) (by simp) (by simp))
  have hctx₄ := hadds₄.keeps hctx₃
  refine wp_step ⟨_, hctx₄, .inl rfl⟩ fun _ w₅ hreply => ?_
  cases hreply
  have hadds := ((hadds₁.trans hadds₂).trans hadds₃).trans hadds₄
  let c : Ctx := ⟨true, some fd, none, readBuffer, writeBuffer, metadata⟩
  have hother : ∀ i ≠ ctx, (w₄.objects.store ctx (.ctx c)).cells i = w₄.objects.cells i :=
    fun i hi => Heap.store_of_ne hi
  refine hsome ctx c _ ?_ rfl rfl (Heap.store_self hctx₄) ?_ ?_ ?_ hdistinct
  · exact hadds.on (by simp) ⟨hother, rfl, le_rfl⟩
  · exact (hother _ hne₂).trans (hadds₄.keeps hread₃)
  · exact (hother _ hne₃).trans (hadds₄.keeps hwrite₃)
  · exact (hother _ (ne_of_cells hmeta₄ hctx₄ nofun)).trans hmeta₄

end Contexts

section Functions

variable {w w' : World} {fd : Nat} {s : Socket} {error : Option ErrorText} {base cells : Nat → Option Object}

theorem wp_warned {enabled : Bool} {set : Option ErrorText → Os (Int × Option ErrorText)} {options : List SockOption}
    (hset : ∀ error, set error = setOptions fd error options) {Q : Option ErrorText → World → Prop}
    (hs : w.objects.cells fd = some (.socket s)) (h : ∀ error w', Quiet w w' → Q error w') :
    wp env (warned enabled error set) Q w := by
  rw [warned]
  split_ifs
  · rw [hset]
    exact wp_bind (wp_setOptions hs options fun r w' hquiet => h r.2 w' hquiet)
  · exact h _ _ ⟨rfl, rfl, rfl⟩

theorem wp_abandon {Q : Option Nat × Option ErrorText → World → Prop} {w₀ : World}
    (hs : w.objects.cells fd = some (.socket s)) (hadds : Adds [fd] w₀ w)
    (h : ∀ error w', Adds [] w₀ w' → Q (none, error) w') : wp env (abandon fd) Q w := by
  refine wp_errno (wp_step ⟨s, hs⟩ fun _ w' hreply => ?_)
  cases hreply
  exact h _ _ (hadds.frees (free_frees w fd) (by simp) (by simp) (by simp))

theorem wp_socketCreate {addr : Option String} {Q : Option Nat × Option ErrorText → World → Prop}
    (hnone : ∀ error w', Adds [] w w' → Q (none, error) w')
    (hsome : ∀ fd error w' others, Adds [fd] w w' →
      w'.objects.cells fd = some (.socket ⟨⟨false, others⟩, .idle⟩) → Q (some fd, error) w') :
    wp env (akTcpSocketCreateForAddr error addr) Q w := by
  refine wp_step trivial fun fd w₁ hreply => ?_
  cases fd with
  | none =>
      obtain ⟨errno, rfl⟩ := hreply
      exact wp_errno (hnone _ _ ⟨fun _ _ => rfl, nofun, rfl, le_rfl⟩)
  | some fd =>
      obtain ⟨rfl, others, rfl⟩ := hreply
      have hadds₁ := alloc_adds w (.socket ⟨⟨false, others⟩, .idle⟩)
      have hs₁ := w.objects.alloc_self (.socket ⟨⟨false, others⟩, .idle⟩)
      refine wp_setsockopt hs₁ fun ok w₂ hquiet₂ => ?_
      have hadds₂ := hadds₁.on (List.mem_singleton.mpr rfl) hquiet₂.on
      have hs₂ := hquiet₂.keeps hs₁
      cases ok with
      | false => exact wp_abandon hs₂ hadds₂ hnone
      | true =>
          simp only [if_true]
          split_ifs
          · refine wp_setsockopt hs₂ fun ok w₃ hquiet₃ => ?_
            have hadds₃ := hadds₂.on (List.mem_singleton.mpr rfl) hquiet₃.on
            have hs₃ := hquiet₃.keeps hs₂
            cases ok with
            | false => exact wp_abandon hs₃ hadds₃ hnone
            | true => exact hsome _ _ _ others hadds₃ hs₃
          · exact hsome _ _ _ others hadds₂ hs₂

section Tls

variable {ssl : Nat} {Q : Option Nat × Option ErrorText → World → Prop} {w₀ : World}

theorem wp_tlsRefuse {text : ErrorText} (hssl : w.objects.cells ssl = some .ssl) (hadds : Adds [ssl] w₀ w)
    (hnone : ∀ error w', Adds [] w₀ w' → Q (none, error) w') : wp env (tlsRefuse ssl text) Q w := by
  refine wp_bind (wp_sslFree hssl fun w' hfrees => ?_)
  exact hnone _ _ (hadds.frees hfrees (by simp) (by simp) (by simp))

theorem wp_sslErrorString {α : Type} {f : String → Os α} {R : α → World → Prop} (h : ∀ text, wp env (f text) R w) :
    wp env (sys .sslErrorString >>= f) R w := by
  refine wp_step trivial fun text w' hreply => ?_
  cases hreply
  exact h text

theorem wp_tlsHandshake (hs : w.IsSocket fd) (hssl : w.objects.cells ssl = some .ssl) (hadds : Adds [ssl] w₀ w)
    (hnone : ∀ error w', Adds [] w₀ w' → Q (none, error) w')
    (hsome : ∀ error, Q (some ssl, error) w) : wp env (tlsHandshake ssl fd error) Q w := by
  refine wp_step ⟨hssl, hs⟩ fun ok w' hreply => ?_
  cases hreply
  cases ok with
  | false => exact wp_sslErrorString fun _ => wp_tlsRefuse hssl hadds hnone
  | true =>
      refine wp_step hssl fun result w' hreply => ?_
      cases hreply
      split_ifs
      · exact hsome _
      · refine wp_step hssl fun sslErr w' hreply => ?_
        cases hreply
        match sslErr with
        | .zeroReturn | .wantReadWrite | .syscall | .other => exact wp_tlsRefuse hssl hadds hnone
        | .ssl => exact wp_sslErrorString fun _ => wp_tlsRefuse hssl hadds hnone

theorem wp_tlsConnect {sslCtx : Bool} {sniHostname : Option String} (hs : w.IsSocket fd)
    (hnone : ∀ error w', Adds [] w w' → Q (none, error) w')
    (hsome : ∀ ssl error w', Adds [ssl] w w' → w'.objects.cells ssl = some .ssl → Q (some ssl, error) w') :
    wp env (akTcpTlsConnect fd error sslCtx sniHostname) Q w := by
  rw [akTcpTlsConnect]
  split_ifs
  · exact hnone _ _ Adds.refl
  · refine wp_sslNew (wp_sslErrorString fun _ => hnone _ _ Adds.refl) fun ssl w₁ hadds hssl => ?_
    have hs₁ : w₁.IsSocket fd := by
      obtain ⟨s, hs⟩ := hs
      exact ⟨s, hadds.keeps hs⟩
    have hshake : wp env (tlsHandshake ssl fd error) Q w₁ :=
      wp_tlsHandshake hs₁ hssl hadds hnone fun error => hsome ssl error w₁ hadds hssl
    cases sniHostname with
    | none => exact hshake
    | some name =>
        refine wp_step hssl fun ok w' hreply => ?_
        cases hreply
        cases ok with
        | false => exact wp_tlsRefuse hssl hadds hnone
        | true => exact hshake

end Tls

theorem Held.free {ctx : Nat} {c : Ctx} (hctx : w.objects.cells ctx = some (.ctx c))
    (h : Held base (some ctx) w.objects.cells) (hfrees : Frees (parts ctx c) w w') :
    Held base none w'.objects.cells := by
  obtain ⟨c', hwhole, hrest, hnew⟩ := h
  obtain rfl : c' = c := by
    have heq := hwhole.ctx
    rw [hctx] at heq
    cases heq
    rfl
  funext i
  rw [hfrees.cells i]
  split_ifs with hi
  · exact (hnew i hi).symm
  · exact hrest i hi

theorem wp_freeCtx {Q : Unit → World → Prop} (h : Held base w.internal.ctx w.objects.cells)
    (hfreed : ∀ w', w'.objects.cells = base → w'.internal = w.internal → w'.refusals = w.refusals → Q () w') :
    wp env (freeCtx w.internal.ctx) Q w := by
  cases hctx : w.internal.ctx with
  | none =>
      rw [hctx] at h
      exact hfreed w h rfl rfl
  | some ctx =>
      rw [hctx] at h
      have hheld := h
      obtain ⟨c, hwhole, -⟩ := h
      exact wp_ctxFree hwhole fun w' hfrees =>
        hfreed w' (hheld.free hwhole.ctx hfrees) hfrees.internal hfrees.refusals.symm

theorem wp_internal {α : Type} {f : Internal → Os α} {R : α → World → Prop} (h : wp env (f w.internal) R w) :
    wp env (sys .internal >>= f) R w := by
  refine wp_step trivial fun internal w' hreply => ?_
  obtain ⟨rfl, rfl⟩ := hreply
  exact h

theorem wp_setInternal {internal : Internal} {Q : Unit → World → Prop} (h : Q () { w with internal }) :
    wp env (sys (.setInternal internal)) Q w := by
  refine wp_ask trivial fun _ w' hreply => ?_
  cases hreply
  exact h

theorem held_of_adds {w₀ : World} {ctx : Nat} {c : Ctx} (hadds : Adds (parts ctx c) w₀ w)
    (hwhole : Whole w.objects.cells ctx c) : Held w₀.objects.cells (some ctx) w.objects.cells :=
  ⟨c, hwhole, hadds.old, hadds.fresh⟩

theorem held_replace {ctx : Nat} {old : Option Nat} {w₀ : World} {c : Ctx} (h : Held base old w₀.objects.cells)
    (hadds : Adds (parts ctx c) w₀ w) (hwhole : Whole w.objects.cells ctx c) {Q : Unit → World → Prop}
    (hfreed : ∀ w', Held base (some ctx) w'.objects.cells →
      (∀ i ∈ parts ctx c, w'.objects.cells i = w.objects.cells i) → w'.internal = w.internal →
      w'.refusals = w.refusals → Q () w') :
    wp env (freeCtx old) Q w := by
  cases old with
  | none =>
      obtain rfl : w₀.objects.cells = base := h
      exact hfreed w (held_of_adds hadds hwhole) (fun _ _ => rfl) rfl rfl
  | some old =>
      obtain ⟨c', hwhole', hrest, hnew⟩ := h
      have hnot : ∀ i ∈ parts old c', i ∉ parts ctx c := fun i hi hmem => hwhole'.live hi (hadds.fresh i hmem)
      have hlive : Whole w.objects.cells old c' := hwhole'.congr fun i hi => hadds.old i (hnot i hi)
      refine wp_ctxFree hlive fun w' hfrees => ?_
      have hkeeps : ∀ i ∈ parts ctx c, w'.objects.cells i = w.objects.cells i :=
        fun i hi => hfrees.keeps fun hmem => hnot i hmem hi
      refine hfreed w' ⟨c, hwhole.congr hkeeps, ?_, ?_⟩ hkeeps hfrees.internal hfrees.refusals.symm
      · intro i hi
        rw [hfrees.cells i]
        split_ifs with hold
        · exact (hnew i hold).symm
        · rw [hadds.old i hi, hrest i hold]
      · intro i hi
        by_cases hold : i ∈ parts old c'
        · exact hnew i hold
        · rw [← hrest i hold, hadds.fresh i hi]

/-- What a connection attempt leaves: the objects of before and those of the
client's connection. When it succeeds the connection is a new one, on a socket
that is connected, and blocking unless a call for that failed; otherwise
nothing has changed. -/
structure Attempted (cfg : Config) (base : Nat → Option Object) (w : World) (result : TcpError) (w' : World) :
    Prop where
  held : Held base w'.internal.ctx w'.objects.cells
  ok : result = .ok → w'.internal.state = .connected ∧ ∃ ctx c fd s, w'.internal.ctx = some ctx ∧
    w'.objects.cells ctx = some (.ctx c) ∧ c.fd = some fd ∧ w'.objects.cells fd = some (.socket s) ∧
    s.progress = .connected ∧ (w'.refusals = w.refusals → s.flags.nonblock = false) ∧ c.ssl.isSome = cfg.useTls
  failed : result ≠ .ok → w'.internal = w.internal ∧ w'.objects.cells = w.objects.cells

theorem attempted_failed {cfg : Config} {w₀ : World} {result : TcpError}
    (h : Held base w₀.internal.ctx w₀.objects.cells) (hadds : Adds [] w₀ w) (hresult : result ≠ .ok) : Attempted cfg base w₀ result w := by
  have hcells : w.objects.cells = w₀.objects.cells := funext fun i => hadds.old i List.not_mem_nil
  refine ⟨?_, fun hok => absurd hok hresult, fun _ => ⟨hadds.internal, hcells⟩⟩
  rw [hadds.internal, hcells]
  exact h

theorem wp_publish {cfg : Config} {w₀ : World} {ctx : Nat} {c : Ctx} {Q : TcpError × Option ErrorText → World → Prop}
    (h : Held base w₀.internal.ctx w₀.objects.cells) (hadds : Adds (parts ctx c) w₀ w)
    (hwhole : Whole w.objects.cells ctx c) (hfd : c.fd = some fd) (hs : w.objects.cells fd = some (.socket s))
    (hconnected : s.progress = .connected) (hblocking : w.refusals = w₀.refusals → s.flags.nonblock = false)
    (htls : c.ssl.isSome = cfg.useTls) (hQ : ∀ w', Attempted cfg base w₀ .ok w' → Q (.ok, error) w') :
    wp env (publish cfg ctx >>= fun _ => pure (.ok, error)) Q w := by
  refine wp_bind (wp_internal ?_)
  rw [hadds.internal]
  refine wp_bind (held_replace h hadds hwhole fun w' hheld hkeeps _ hrefusals => ?_)
  refine wp_setInternal (hQ _ ⟨hheld, fun _ => ⟨rfl, ctx, c, fd, s, rfl, ?_, hfd, ?_, hconnected, ?_, htls⟩, nofun⟩)
  · exact (hkeeps ctx (by simp [parts])).trans hwhole.ctx
  · exact (hkeeps fd (by simp [parts, hfd])).trans hs
  · intro heq
    exact hblocking (hrefusals.symm.trans heq)

theorem wp_setUp {cfg : Config} {w₀ : World} {Q : TcpError × Option ErrorText → World → Prop}
    (h : Held base w₀.internal.ctx w₀.objects.cells) (hadds : Adds [fd] w₀ w)
    (hs : w.objects.cells fd = some (.socket s)) (hconnected : s.progress = .connected)
    (hblocking : w.refusals = w₀.refusals → s.flags.nonblock = false)
    (hQ : ∀ r w', Attempted cfg base w₀ r.1 w' → Q r w') : wp env (setUp cfg fd error) Q w := by
  have hlater : ∀ w' : World, w.refusals ≤ w'.refusals → w'.refusals = w₀.refusals → s.flags.nonblock = false := by
    intro w' hle heq
    have hle₀ := hadds.refusals
    exact hblocking (by omega)
  refine wp_bind (wp_ctxNew ?_ fun ctx c w₁ hadds₁ hfd hssl hctx hread hwrite hmeta hdistinct => ?_)
  · intro w₁ hadds₁
    refine wp_bind (wp_close (hadds₁.keeps hs) fun w' hfrees => ?_)
    exact hQ _ _ (attempted_failed h ((hadds.trans hadds₁).frees hfrees (by simp) (by simp) (by simp)) nofun)
  have hs₁ := hadds₁.keeps hs
  have hwhole₁ : Whole w₁.objects.cells ctx c := by
    refine ⟨hctx, fun i hi => ?_, fun i hi => ?_, hread, hwrite, hmeta, hdistinct⟩
    · rw [hfd] at hi
      cases hi
      exact ⟨s, hs₁⟩
    · rw [hssl] at hi
      cases hi
  have hparts : parts ctx c = [fd, c.readBuffer, c.writeBuffer, c.metadata, ctx] := by
    rw [parts, hssl, hfd]
    rfl
  split_ifs with htls
  · refine wp_bind (wp_tlsConnect ⟨s, hs₁⟩ ?_ fun ssl error w₂ hadds₂ hssl₂ => ?_)
    · intro error w₂ hadds₂
      refine wp_bind (wp_ctxFree (hwhole₁.congr fun i _ => hadds₂.old i List.not_mem_nil) fun w' hfrees => ?_)
      have hall : Adds [] w₀ w' := by
        refine ((hadds.trans hadds₁).trans hadds₂).frees hfrees ?_ ?_ nofun <;> rw [hparts] <;> simp
      exact hQ _ _ (attempted_failed h hall nofun)
    · have hctx₂ := hadds₂.keeps hctx
      refine wp_load hctx₂ (wp_step ⟨_, hctx₂, .inr ⟨c, rfl⟩⟩ fun _ w₃ hreply => ?_)
      cases hreply
      have hother : ∀ i o, w₂.objects.cells i = some o → o ≠ .ctx c →
          (w₂.objects.store ctx (.ctx { c with ssl := some ssl })).cells i = some o := by
        intro i o hi hne
        rw [Heap.store_of_ne (ne_of_cells hi hctx₂ hne), hi]
      have hs₃ := hother fd _ (hadds₂.keeps hs₁) nofun
      refine wp_publish (c := { c with ssl := some ssl }) (s := s) h ?_ ?_ hfd hs₃ hconnected
        (hlater w₂ (hadds₁.refusals.trans hadds₂.refusals)) htls.symm fun w' hattempted => hQ _ _ hattempted
      · have hon : On ctx w₂ (w₂.store ctx (.ctx { c with ssl := some ssl })) :=
          ⟨fun i hi => Heap.store_of_ne hi, rfl, le_rfl⟩
        have hall := ((hadds.trans hadds₁).trans hadds₂).on (by simp) hon
        refine hall.of_mem fun i => ?_
        simp only [parts, hfd, Option.toList_some, List.mem_append, List.mem_cons, List.not_mem_nil, or_false]
        tauto
      · refine ⟨Heap.store_self hctx₂, fun i hi => ?_, fun i hi => ?_, ?_, ?_, ?_, hdistinct⟩
        · rw [hfd] at hi
          cases hi
          exact ⟨s, hs₃⟩
        · cases hi
          exact hother _ _ hssl₂ nofun
        · exact hother _ _ (hadds₂.keeps hread) nofun
        · exact hother _ _ (hadds₂.keeps hwrite) nofun
        · exact hother _ _ (hadds₂.keeps hmeta) nofun
  · refine wp_publish h ?_ hwhole₁ hfd hs₁ hconnected (hlater w₁ hadds₁.refusals) ?_ fun w' hattempted =>
      hQ _ _ hattempted
    · refine (hadds.trans hadds₁).of_mem fun i => ?_
      rw [hparts]
      simp only [List.mem_append, List.mem_cons, List.not_mem_nil, or_false]
      tauto
    · rw [hssl]
      exact (Bool.not_eq_true _ ▸ htls).symm

theorem wp_clientDoConnect (cfg : Config) (error : Option ErrorText) (h : Held base w.internal.ctx w.objects.cells) :
    wp env (clientDoConnect cfg error) (fun r w' => Attempted cfg base w r.1 w') w := by
  refine wp_bind (wp_socketCreate ?_ fun fd error w₁ others hadds₁ hs₁ => ?_)
  · exact fun error w₁ hadds₁ => attempted_failed h hadds₁ nofun
  have hmem : fd ∈ [fd] := List.mem_singleton.mpr rfl
  refine wp_bind (wp_warned (fun _ => rfl) hs₁ fun error w₂ hquiet₂ => ?_)
  have hs₂ := hquiet₂.keeps hs₁
  refine wp_bind (wp_warned (fun _ => rfl) hs₂ fun error w₃ hquiet₃ => ?_)
  have hs₃ := hquiet₃.keeps hs₂
  refine wp_bind (wp_warned (fun _ => rfl) hs₃ fun error w₄ hquiet₄ => ?_)
  have hadds₄ := ((hadds₁.on hmem hquiet₂.on).on hmem hquiet₃.on).on hmem hquiet₄.on
  refine wp_bind (wp_socketConnect (hquiet₄.keeps hs₃) rfl fun r w₅ s hon₅ hs₅ hr _ hblocking => ?_)
  have hadds₅ := hadds₄.on hmem hon₅
  split_ifs with hresult
  · refine wp_bind (wp_close hs₅ fun w' hfrees => ?_)
    exact attempted_failed h (hadds₅.frees hfrees (by simp) (by simp) (by simp)) nofun
  refine wp_bind (wp_warned (fun _ => rfl) hs₅ fun error w₆ hquiet₆ => ?_)
  have hs₆ := hquiet₆.keeps hs₅
  refine wp_bind (wp_warned (fun _ => rfl) hs₆ fun error w₇ hquiet₇ => ?_)
  refine wp_setUp h ((hadds₅.on hmem hquiet₆.on).on hmem hquiet₇.on) (hquiet₇.keeps hs₆) (hr (not_not.mp hresult)) ?_
    fun r w' hattempted => hattempted
  intro heq
  have hle₄ := hadds₄.refusals
  have hle₅ := hon₅.refusals
  rw [hquiet₇.refusals, hquiet₆.refusals] at heq
  exact hblocking (by omega)

theorem wp_tcpClose {ctx : Nat} {Q : Unit → World → Prop} (h : Held base (some ctx) w.objects.cells)
    (hclosed : ∀ w', Held base (some ctx) w'.objects.cells → w'.internal = w.internal → Q () w') :
    wp env (akTcpClose ctx) Q w := by
  have hheld := h
  obtain ⟨c, hwhole, hrest, hnew⟩ := h
  refine wp_load hwhole.ctx ?_
  split_ifs
  · refine wp_release hwhole fun w₁ hfrees hctx hread hwrite hmeta => ?_
    refine wp_ask ⟨_, hctx, .inr ⟨c, rfl⟩⟩ fun _ w₂ hreply => ?_
    cases hreply
    have hother : ∀ i ≠ ctx, (w₁.objects.store ctx (.ctx { c with alive := false, ssl := none, fd := none })).cells i =
        w₁.objects.cells i := fun i hi => Heap.store_of_ne hi
    refine hclosed _ ⟨{ c with alive := false, ssl := none, fd := none }, ?_, ?_, ?_⟩ hfrees.internal
    · refine ⟨Heap.store_self hctx, nofun, nofun, ?_, ?_, ?_, hwhole.distinct⟩
      · exact (hother _ (ne_of_cells hread hctx nofun)).trans hread
      · exact (hother _ (ne_of_cells hwrite hctx nofun)).trans hwrite
      · exact (hother _ (ne_of_cells hmeta hctx nofun)).trans hmeta
    · intro i hi
      have hkept : i ∉ [c.readBuffer, c.writeBuffer, c.metadata, ctx] := hi
      refine (hother i (by simp at hkept; tauto)).trans ?_
      rw [hfrees.cells i]
      split_ifs with hreleased
      · refine (hnew i ?_).symm
        rw [parts, ← List.append_assoc]
        exact List.mem_append_left _ hreleased
      · refine hrest i ?_
        rw [parts, ← List.append_assoc, List.mem_append]
        exact not_or.mpr ⟨hreleased, hkept⟩
    · intro i hi
      refine hnew i ?_
      rw [parts, ← List.append_assoc]
      exact List.mem_append_right _ hi
  · exact hclosed w hheld rfl

theorem wp_disconnectSection (h : Held base w.internal.ctx w.objects.cells) :
    wp env disconnectSection (fun _ w' => w'.internal.ctx = none ∧ w'.objects.cells = base) w := by
  refine wp_internal (wp_bind ?_)
  have hclose : ∀ ctx, w.internal.ctx = ctx → wp env (closeCtx ctx)
      (fun _ w' => Held base w'.internal.ctx w'.objects.cells ∧ w'.internal = w.internal) w := by
    intro ctx hctx
    cases ctx with
    | none => exact ⟨h, rfl⟩
    | some ctx =>
        rw [hctx] at h
        exact wp_tcpClose h fun w' hheld hinternal => ⟨by rwa [hinternal, hctx], hinternal⟩
  refine wp_mono (hclose _ rfl) fun _ w' hclosed => ?_
  obtain ⟨hheld, hinternal⟩ := hclosed
  rw [← hinternal]
  exact wp_bind (wp_freeCtx hheld fun w'' hcells _ _ => wp_setInternal ⟨rfl, hcells⟩)

end Functions

/-- The client's calls one after the other: attempts with any answers of the
system, disconnections, and closes of its connection. -/
inductive Step : World → List TcpError → World → Prop
  | attempt (w w' : World) (cfg : Config) (error : Option ErrorText) (r : TcpError × Option ErrorText)
    (hsteps : Steps env (clientDoConnect cfg error) w (.done r) w') : Step w [r.1] w'
  | disconnect (w w' : World) (hsteps : Steps env disconnectSection w (.done ()) w') : Step w [] w'
  | close (w w' : World) (ctx : Nat) (hctx : w.internal.ctx = some ctx)
    (hsteps : Steps env (akTcpClose ctx) w (.done ()) w') : Step w [] w'

section Runs

variable {w₀ w w' : World} {trace events : List TcpError} {base : Nat → Option Object}

theorem Step.held (hs : Step w events w') (h : Held base w.internal.ctx w.objects.cells) :
    Held base w'.internal.ctx w'.objects.cells := by
  cases hs with
  | attempt _ cfg error r hsteps => exact (post_of_wp (wp_clientDoConnect cfg error h) hsteps).held
  | disconnect _ hsteps =>
      obtain ⟨hctx, hcells⟩ := post_of_wp (wp_disconnectSection h) hsteps
      rw [hctx]
      exact hcells
  | close _ ctx hctx hsteps =>
      rw [hctx] at h
      refine post_of_wp (wp_tcpClose h (Q := fun _ w' => Held base w'.internal.ctx w'.objects.cells) ?_) hsteps
      intro w' hheld hinternal
      rw [hinternal, hctx]
      exact hheld

/-- However many attempts a client makes and whatever the system answers, its
objects are those of one connection: an attempt calls on live objects only and
leaves nothing behind when it fails, and a disconnection gives back everything. -/
theorem client_leaks_nothing (hrun : Run Step w₀ trace w) (hstart : w₀.internal.ctx = none) :
    Held w₀.objects.cells w.internal.ctx w.objects.cells ∧
    (∀ cfg error call next w', Steps env (clientDoConnect cfg error) w (.ask call next) w' → legal w' call) ∧
    (∀ cfg error r w', Steps env (clientDoConnect cfg error) w (.done r) w' →
      Attempted cfg w₀.objects.cells w r.1 w') ∧
    (∀ call next w', Steps env disconnectSection w (.ask call next) w' → legal w' call) ∧
    ∀ w', Steps env disconnectSection w (.done ()) w' → w'.objects.cells = w₀.objects.cells := by
  have hheld : Held w₀.objects.cells w.internal.ctx w.objects.cells := by
    refine hrun.invariant (P := fun _ w => Held w₀.objects.cells w.internal.ctx w.objects.cells) ?_
      fun _ _ _ _ h hs => hs.held h
    rw [hstart]
    rfl
  refine ⟨hheld, ?_, ?_, ?_, ?_⟩
  · exact fun cfg error call next w' hsteps => legal_of_wp (wp_clientDoConnect cfg error hheld) hsteps
  · exact fun cfg error r w' hsteps => post_of_wp (wp_clientDoConnect cfg error hheld) hsteps
  · exact fun call next w' hsteps => legal_of_wp (wp_disconnectSection hheld) hsteps
  · exact fun w' hsteps => (post_of_wp (wp_disconnectSection hheld) hsteps).2

end Runs

def obliging (w : World) : (call : Call) → Answer call × World
  | .errno => (w.errno, w)
  | .setErrno errno => ((), { w with errno })
  | .socket _ => (some w.objects.next, { w with objects := w.objects.alloc (.socket ⟨⟨false, 0⟩, .idle⟩) })
  | .setsockopt .. => (true, w)
  | .getfl fd => match w.objects.cells fd with
    | some (.socket s) => (some s.flags, w)
    | _ => (none, { w with refusals := w.refusals + 1 })
  | .setfl fd flags => (true, w.touch fd fun s => { s with flags })
  | .shutdown _ => ((), w)
  | .close id | .freeaddrinfo id | .free id | .sslFree id => ((), { w with objects := w.objects.free id })
  | .getaddrinfo .. => (.ok (w.objects.next, [0]), { w with objects := w.objects.alloc (.addrs [0]) })
  | .connect fd .. => (true, w.touch fd fun s => { s with progress := .connected })
  | .poll .. => (some 1, w)
  | .soError fd => (some 0, w.touch fd (afterSoError 0))
  | .alloc o => (some w.objects.next, { w with objects := w.objects.alloc o })
  | .load ctx => match w.objects.cells ctx with
    | some (.ctx c) => (c, w)
    | _ => (⟨true, none, none, 0, 0, 0⟩, w)
  | .store ctx c => ((), w.store ctx (.ctx c))
  | .sslNew => (some w.objects.next, { w with objects := w.objects.alloc .ssl })
  | .sslSetHostName .. | .sslSetFd .. => (true, w)
  | .sslConnect _ | .sslShutdown _ => (1, w)
  | .sslGetError .. => (.other, w)
  | .sslErrorString => ("", w)
  | .internal => (w.internal, w)
  | .setInternal internal => ((), { w with internal })

theorem obliging_replies (w : World) (call : Call) (h : legal w call) :
    replies w call (obliging w call).1 (obliging w call).2 := by
  cases call with
  | getfl fd =>
      obtain ⟨s, hs⟩ := h
      simp only [obliging, hs]
      exact ⟨rfl, s.progress, hs⟩
  | load ctx =>
      obtain ⟨c, hc⟩ := h
      simp only [obliging, hc]
      exact ⟨rfl, hc⟩
  | errno | alloc | sslNew | internal | getaddrinfo => exact ⟨rfl, rfl⟩
  | socket => exact ⟨rfl, 0, rfl⟩
  | _ => exact rfl

/-- One attempt in which every call succeeds. -/
theorem client_leaks_nothing_connected :
    let w₀ : World := ⟨Heap.empty Object, 0, 0, ⟨none, .disconnected, 0, 0, 0⟩⟩
    ∃ w, Run Step w₀ [.ok] w ∧ w.internal.ctx = some 2 ∧ Held w₀.objects.cells (some 2) w.objects.cells := by
  intro w₀
  let cfg : Config := ⟨"localhost", 80, 0, false, 0, 0, 0, 0, false, 0, 0, 0, false, false, none, 0⟩
  have hstart : Held w₀.objects.cells w₀.internal.ctx w₀.objects.cells := rfl
  have hsteps := steps_run obliging_replies (wp_clientDoConnect cfg none hstart)
  have hrun := Run.start.next (Step.attempt _ _ cfg none _ hsteps)
  have hctx : ((clientDoConnect cfg none).run obliging w₀).2.internal.ctx = some 2 := rfl
  refine ⟨_, ?_, hctx, ?_⟩
  · exact hrun
  · rw [← hctx]
    exact (client_leaks_nothing hrun rfl).1

end Ak24.TcpConnect
