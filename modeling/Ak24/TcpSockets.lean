import Ak24.Dialogs
import Ak24.Objects
import Ak24.TcpClientModel

namespace Ak24.TcpSockets

open Dialogs Objects
open TcpClientModel (ClientState)

inductive Progress
  | idle
  | pending
  | connected
  | bound
  | listening
  deriving DecidableEq, Repr

structure Flags where
  nonblock : Bool
  others : Nat
  deriving DecidableEq, Repr

structure Socket where
  flags : Flags
  progress : Progress
  deriving DecidableEq, Repr

structure Ctx where
  alive : Bool
  fd : Option Nat
  ssl : Option Nat
  readBuffer : Nat
  writeBuffer : Nat
  metadata : Nat
  deriving DecidableEq, Repr

inductive Object
  | socket (s : Socket)
  | addrs (list : List Nat)
  | ssl
  | memory
  | buffer
  | context
  | ctx (c : Ctx)
  deriving DecidableEq, Repr

structure Internal where
  ctx : Option Nat
  state : ClientState
  successfulConnections : Nat
  currentReconnectDelay : Nat
  currentAttempt : Nat
  deriving DecidableEq, Repr

/-- `refusals` counts the `fcntl` calls that failed. -/
structure World where
  objects : Heap Object
  errno : Nat
  refusals : Nat
  internal : Internal

inductive SockOption
  | reuseaddr (on : Bool)
  | v6only (on : Bool)
  | nodelay (on : Bool)
  | rcvbuf (size : Int)
  | sndbuf (size : Int)
  | rcvtimeo (sec usec : Nat)
  | sndtimeo (sec usec : Nat)
  | keepalive (on : Bool)
  | keepidle (sec : Int)
  | keepintvl (sec : Int)
  | keepcnt (count : Int)
  deriving DecidableEq, Repr

inductive Family
  | inet
  | inet6
  deriving DecidableEq, Repr

inductive SslError
  | zeroReturn
  | wantReadWrite
  | syscall
  | ssl
  | other
  deriving DecidableEq, Repr

inductive ErrorText
  | text (s : String)
  | strerror (errno : Nat)
  | gai (code : Int)
  | ssl (s : String)
  deriving DecidableEq, Repr

inductive Call
  | errno
  | setErrno (errno : Nat)
  | socket (family : Family)
  | setsockopt (fd : Nat) (option : SockOption)
  | getfl (fd : Nat)
  | setfl (fd : Nat) (flags : Flags)
  | shutdown (fd : Nat)
  | close (fd : Nat)
  | getaddrinfo (host : String) (port : Nat)
  | freeaddrinfo (list : Nat)
  | connect (fd list addr : Nat)
  | poll (fd timeoutMs : Nat)
  | soError (fd : Nat)
  | alloc (o : Object)
  | free (id : Nat)
  | load (ctx : Nat)
  | store (ctx : Nat) (c : Ctx)
  | sslNew
  | sslSetHostName (ssl : Nat) (name : String)
  | sslSetFd (ssl fd : Nat)
  | sslConnect (ssl : Nat)
  | sslGetError (ssl : Nat) (result : Int)
  | sslErrorString
  | sslShutdown (ssl : Nat)
  | sslFree (ssl : Nat)
  | internal
  | setInternal (internal : Internal)
  deriving DecidableEq, Repr

abbrev Answer : Call → Type
  | .errno => Nat
  | .socket _ | .alloc _ | .sslNew => Option Nat
  | .internal => Internal
  | .setsockopt .. | .setfl .. | .connect .. | .sslSetHostName .. | .sslSetFd .. => Bool
  | .getfl _ => Option Flags
  | .getaddrinfo .. => Except Int (Nat × List Nat)
  | .poll .. | .soError _ => Option Nat
  | .load _ => Ctx
  | .sslConnect _ | .sslShutdown _ => Int
  | .sslGetError .. => SslError
  | .sslErrorString => String
  | .setErrno _ | .shutdown _ | .close _ | .freeaddrinfo _ | .free _ | .store .. | .sslFree _ | .setInternal _ => Unit

def einprogress : Nat := 115

def World.IsSocket (w : World) (fd : Nat) : Prop := ∃ s, w.objects.cells fd = some (.socket s)

def World.store (w : World) (i : Nat) (o : Object) : World := { w with objects := w.objects.store i o }

/-- Each object is used as what it is, and while it is there. -/
def legal (w : World) : Call → Prop
  | .setsockopt fd _ | .getfl fd | .setfl fd _ | .shutdown fd | .close fd | .poll fd _ | .soError fd => w.IsSocket fd
  | .freeaddrinfo list => ∃ addrs, w.objects.cells list = some (.addrs addrs)
  | .connect fd list addr => w.IsSocket fd ∧ ∃ addrs, w.objects.cells list = some (.addrs addrs) ∧ addr ∈ addrs
  | .free id => ∃ o, w.objects.cells id = some o ∧ (o = .memory ∨ o = .buffer ∨ o = .context ∨ ∃ c, o = .ctx c)
  | .load ctx => ∃ c, w.objects.cells ctx = some (.ctx c)
  | .store ctx _ => ∃ o, w.objects.cells ctx = some o ∧ (o = .memory ∨ ∃ c, o = .ctx c)
  | .sslSetHostName ssl _ | .sslConnect ssl | .sslGetError ssl _ | .sslShutdown ssl | .sslFree ssl =>
    w.objects.cells ssl = some .ssl
  | .sslSetFd ssl fd => w.objects.cells ssl = some .ssl ∧ w.IsSocket fd
  | _ => True

def World.touch (w : World) (fd : Nat) (f : Socket → Socket) : World :=
  match w.objects.cells fd with
  | some (.socket s) => w.store fd (.socket (f s))
  | _ => w

def afterConnect (errno : Nat) (s : Socket) : Socket :=
  { s with progress := if errno = einprogress then .pending else .idle }

def afterSoError (soError : Nat) (s : Socket) : Socket :=
  if s.progress = .pending then { s with progress := if soError = 0 then .connected else .idle } else s

/-- A call that fails sets `errno`; a connection that is pending is there once
its error is read as none. -/
def replies (w : World) : (call : Call) → Answer call → World → Prop
  | .errno, errno, w' => errno = w.errno ∧ w' = w
  | .setErrno errno, _, w' => w' = { w with errno }
  | .socket _, none, w' | .setsockopt .., false, w' | .poll .., none, w' | .soError _, none, w' =>
    ∃ errno, w' = { w with errno }
  | .socket _, some fd, w' =>
    fd = w.objects.next ∧ ∃ others, w' = { w with objects := w.objects.alloc (.socket ⟨⟨false, others⟩, .idle⟩) }
  | .setsockopt .., true, w' | .poll .., some _, w' | .shutdown _, _, w' | .getaddrinfo .., .error _, w' => w' = w
  | .getfl _, none, w' | .setfl .., false, w' => ∃ errno, w' = { w with errno, refusals := w.refusals + 1 }
  | .getfl fd, some flags, w' => w' = w ∧ ∃ progress, w.objects.cells fd = some (.socket ⟨flags, progress⟩)
  | .setfl fd flags, true, w' => w' = w.touch fd fun s => { s with flags }
  | .close fd, _, w' => w' = { w with objects := w.objects.free fd }
  | .getaddrinfo .., .ok (list, addrs), w' =>
    list = w.objects.next ∧ w' = { w with objects := w.objects.alloc (.addrs addrs) }
  | .freeaddrinfo list, _, w' => w' = { w with objects := w.objects.free list }
  | .connect fd .., true, w' => w' = w.touch fd fun s => { s with progress := .connected }
  | .connect fd .., false, w' => ∃ errno, w' = { w.touch fd (afterConnect errno) with errno }
  | .soError fd, some soError, w' => w' = w.touch fd (afterSoError soError)
  | .alloc _, none, w' | .sslNew, none, w' => w' = w
  | .alloc o, some id, w' => id = w.objects.next ∧ w' = { w with objects := w.objects.alloc o }
  | .free id, _, w' => w' = { w with objects := w.objects.free id }
  | .load ctx, c, w' => w' = w ∧ w.objects.cells ctx = some (.ctx c)
  | .store ctx c, _, w' => w' = w.store ctx (.ctx c)
  | .sslNew, some ssl, w' => ssl = w.objects.next ∧ w' = { w with objects := w.objects.alloc .ssl }
  | .sslFree ssl, _, w' => w' = { w with objects := w.objects.free ssl }
  | .internal, internal, w' => internal = w.internal ∧ w' = w
  | .setInternal internal, _, w' => w' = { w with internal }
  | .sslSetHostName .., _, w' | .sslSetFd .., _, w' | .sslConnect _, _, w' | .sslGetError .., _, w'
  | .sslErrorString, _, w' | .sslShutdown _, _, w' => w' = w

def env : Environment Answer World := ⟨legal, replies⟩

abbrev Os (α : Type) := Prog Answer α

def sys (call : Call) : Os (Answer call) := ask call

section Sockets

variable (fd : Nat) (error : Option ErrorText)

def refuse : Os (Int × Option ErrorText) := do
  let errno ← sys .errno
  pure (-1, some (.strerror errno))

def setOptions : List SockOption → Os (Int × Option ErrorText)
  | [] => pure (0, error)
  | option :: options => do
    if ← sys (.setsockopt fd option) then setOptions options else refuse

def akTcpSocketSetReuseaddr (enable : Bool) : Os (Int × Option ErrorText) := setOptions fd error [.reuseaddr enable]

def akTcpSocketSetNodelay (enable : Bool) : Os (Int × Option ErrorText) := setOptions fd error [.nodelay enable]

def timeval (ms : Nat) : Nat × Nat := if 0 < ms then (ms / 1000, ms % 1000 * 1000) else (0, 0)

def akTcpSocketSetTimeout (recvTimeoutMs sendTimeoutMs : Nat) : Os (Int × Option ErrorText) :=
  setOptions fd error [.rcvtimeo (timeval recvTimeoutMs).1 (timeval recvTimeoutMs).2,
    .sndtimeo (timeval sendTimeoutMs).1 (timeval sendTimeoutMs).2]

def akTcpSocketSetKeepalive (idleSec intervalSec probeCount : Int) : Os (Int × Option ErrorText) :=
  setOptions fd error (.keepalive (0 < idleSec) ::
    if idleSec ≤ 0 then [] else [.keepidle idleSec, .keepintvl intervalSec, .keepcnt probeCount])

def intOfSize (size : Nat) : Int := (size : Int).bmod (2 ^ 32)

def akTcpSocketSetBuffers (recvSize sendSize : Nat) : Os (Int × Option ErrorText) :=
  setOptions fd error ((if 0 < recvSize then [.rcvbuf (intOfSize recvSize)] else []) ++
    if 0 < sendSize then [.sndbuf (intOfSize sendSize)] else [])

def akTcpSocketSetNonblocking (nonblocking : Bool) : Os (Int × Option ErrorText) := do
  match ← sys (.getfl fd) with
  | none => refuse
  | some flags =>
    if ← sys (.setfl fd { flags with nonblock := nonblocking }) then pure (0, error) else refuse

def akTcpSocketClose : Os Unit := do
  sys (.shutdown fd)
  sys (.close fd)

def akTcpDetectAddrFamily (addr : Option String) : Family :=
  match addr with
  | none => .inet
  | some addr =>
    if addr = "0.0.0.0" then .inet
    else if addr = "::" ∨ addr = "::0" then .inet6
    else if ':' ∈ addr.toList then .inet6
    else .inet

def abandon : Os (Option Nat × Option ErrorText) := do
  let errno ← sys .errno
  sys (.close fd)
  pure (none, some (.strerror errno))

def akTcpSocketCreateForAddr (addr : Option String) : Os (Option Nat × Option ErrorText) := do
  let family := akTcpDetectAddrFamily addr
  match ← sys (.socket family) with
  | none =>
    let errno ← sys .errno
    pure (none, some (.strerror errno))
  | some fd =>
    if ← sys (.setsockopt fd (.reuseaddr true)) then
      if family = .inet6 then
        if ← sys (.setsockopt fd (.v6only false)) then pure (some fd, error) else abandon fd
      else pure (some fd, error)
    else abandon fd

def akTcpSocketCreate : Os (Option Nat × Option ErrorText) := akTcpSocketCreateForAddr error none

inductive Attempt
  | connected
  | gaveUp (error : ErrorText)
  | exhausted
  deriving DecidableEq, Repr

def connectLoop (list timeoutMs : Nat) : List Nat → Os Attempt
  | [] => pure .exhausted
  | addr :: rest => do
    if ← sys (.connect fd list addr) then pure .connected
    else
      let errno ← sys .errno
      if errno = einprogress ∧ 0 < timeoutMs then
        match ← sys (.poll fd timeoutMs) with
        | none =>
          let errno ← sys .errno
          pure (.gaveUp (.strerror errno))
        | some 0 => pure (.gaveUp (.text "Connection timed out"))
        | some (_ + 1) =>
          match ← sys (.soError fd) with
          | none =>
            let errno ← sys .errno
            pure (.gaveUp (.strerror errno))
          | some 0 => pure .connected
          | some (soError + 1) =>
            sys (.setErrno (soError + 1))
            connectLoop list timeoutMs rest
      else connectLoop list timeoutMs rest

def attemptResult : Attempt → Os (Int × Option ErrorText)
  | .connected => pure (0, error)
  | .gaveUp error => pure (-1, some error)
  | .exhausted => refuse

def finishConnect (list timeoutMs : Nat) (attempt : Attempt) : Os (Int × Option ErrorText) := do
  sys (.freeaddrinfo list)
  if 0 < timeoutMs then
    let _ ← akTcpSocketSetNonblocking fd none false
  attemptResult error attempt

def akTcpSocketConnect (host : Option String) (port timeoutMs : Nat) : Os (Int × Option ErrorText) :=
  match host with
  | none => pure (-1, some (.text "Host is required"))
  | some host => do
    match ← sys (.getaddrinfo host port) with
    | .error code => pure (-1, some (.gai code))
    | .ok (list, addrs) =>
      if 0 < timeoutMs then
        let (result, error) ← akTcpSocketSetNonblocking fd error true
        if result ≠ 0 then
          sys (.freeaddrinfo list)
          pure (-1, error)
        else
          let attempt ← connectLoop fd list timeoutMs addrs
          finishConnect fd error list timeoutMs attempt
      else
        let attempt ← connectLoop fd list timeoutMs addrs
        finishConnect fd error list timeoutMs attempt

end Sockets

section Calls

variable {α : Type} {Q : α → World → Prop} {w w' w'' : World} {fd : Nat} {s s' : Socket}

/-- The world where a call has changed `errno` only. -/
structure Quiet (w w' : World) : Prop where
  objects : w'.objects = w.objects
  internal : w'.internal = w.internal
  refusals : w'.refusals = w.refusals

theorem Quiet.keeps (h : Quiet w w') {o : Option Object} (hfd : w.objects.cells fd = o) :
    w'.objects.cells fd = o := by
  rw [h.objects, hfd]

theorem wp_errno {f : Nat → Os α} (h : wp env (f w.errno) Q w) : wp env (sys .errno >>= f) Q w := by
  refine wp_step trivial fun errno w' hreply => ?_
  obtain ⟨rfl, rfl⟩ := hreply
  exact h

theorem wp_setErrno {errno : Nat} {f : Unit → Os α} (h : ∀ w', Quiet w w' → wp env (f ()) Q w') :
    wp env (sys (.setErrno errno) >>= f) Q w := by
  refine wp_step trivial fun _ w' hreply => h w' ?_
  cases hreply
  exact ⟨rfl, rfl, rfl⟩

theorem wp_setsockopt {option : SockOption} {f : Bool → Os α} (hs : w.objects.cells fd = some (.socket s))
    (h : ∀ ok w', Quiet w w' → wp env (f ok) Q w') : wp env (sys (.setsockopt fd option) >>= f) Q w := by
  refine wp_step ⟨s, hs⟩ fun ok w' hreply => h ok w' ?_
  cases ok with
  | false =>
      obtain ⟨errno, rfl⟩ := hreply
      exact ⟨rfl, rfl, rfl⟩
  | true =>
      cases hreply
      exact ⟨rfl, rfl, rfl⟩

theorem wp_poll {timeoutMs : Nat} {f : Option Nat → Os α} (hs : w.objects.cells fd = some (.socket s))
    (h : ∀ ready w', Quiet w w' → wp env (f ready) Q w') : wp env (sys (.poll fd timeoutMs) >>= f) Q w := by
  refine wp_step ⟨s, hs⟩ fun ready w' hreply => h ready w' ?_
  cases ready with
  | none =>
      obtain ⟨errno, rfl⟩ := hreply
      exact ⟨rfl, rfl, rfl⟩
  | some _ =>
      cases hreply
      exact ⟨rfl, rfl, rfl⟩

structure On (fd : Nat) (w w' : World) : Prop where
  others : ∀ i ≠ fd, w'.objects.cells i = w.objects.cells i
  internal : w'.internal = w.internal
  refusals : w.refusals ≤ w'.refusals

theorem Quiet.on (h : Quiet w w') : On fd w w' :=
  ⟨fun i _ => by rw [h.objects], h.internal, h.refusals.ge⟩

theorem On.refl : On fd w w := ⟨fun _ _ => rfl, rfl, le_rfl⟩

theorem On.trans (h : On fd w w') (h' : On fd w' w'') : On fd w w'' :=
  ⟨fun i hi => (h'.others i hi).trans (h.others i hi), h'.internal.trans h.internal, h.refusals.trans h'.refusals⟩

theorem touch_on (w : World) (fd : Nat) (g : Socket → Socket) : On fd w (w.touch fd g) := by
  rw [World.touch]
  split
  · exact ⟨fun i hi => Heap.store_of_ne hi, rfl, le_rfl⟩
  · exact On.refl

theorem touch_self {g : Socket → Socket} (hs : w.objects.cells fd = some (.socket s)) :
    (w.touch fd g).objects.cells fd = some (.socket (g s)) := by
  simp only [World.touch, hs]
  exact Heap.store_self hs

theorem touch_refusals (w : World) (fd : Nat) (g : Socket → Socket) : (w.touch fd g).refusals = w.refusals := by
  rw [World.touch]
  split <;> rfl

theorem wp_getfl {f : Option Flags → Os α} (hs : w.objects.cells fd = some (.socket s))
    (hnone : ∀ w', w'.objects = w.objects → w'.internal = w.internal → w'.refusals = w.refusals + 1 →
      wp env (f none) Q w')
    (hsome : wp env (f (some s.flags)) Q w) : wp env (sys (.getfl fd) >>= f) Q w := by
  refine wp_step ⟨s, hs⟩ fun flags w' hreply => ?_
  cases flags with
  | none =>
      obtain ⟨errno, rfl⟩ := hreply
      exact hnone _ rfl rfl rfl
  | some flags =>
      obtain ⟨rfl, progress, hflags⟩ := hreply
      rw [hs] at hflags
      cases hflags
      exact hsome

theorem wp_setfl {flags : Flags} {f : Bool → Os α} (hs : w.objects.cells fd = some (.socket s))
    (hfalse : ∀ w', w'.objects = w.objects → w'.internal = w.internal → w'.refusals = w.refusals + 1 →
      wp env (f false) Q w')
    (htrue : ∀ w', On fd w w' → w'.refusals = w.refusals →
      w'.objects.cells fd = some (.socket { s with flags }) → wp env (f true) Q w') :
    wp env (sys (.setfl fd flags) >>= f) Q w := by
  refine wp_step ⟨s, hs⟩ fun ok w' hreply => ?_
  cases ok with
  | false =>
      obtain ⟨errno, rfl⟩ := hreply
      exact hfalse _ rfl rfl rfl
  | true =>
      cases hreply
      exact htrue _ (touch_on ..) (touch_refusals ..) (touch_self hs)

theorem wp_connect {list addr : Nat} {addrs : List Nat} {f : Bool → Os α}
    (hs : w.objects.cells fd = some (.socket s)) (hlist : w.objects.cells list = some (.addrs addrs))
    (haddr : addr ∈ addrs)
    (htrue : ∀ w', On fd w w' → w'.refusals = w.refusals →
      w'.objects.cells fd = some (.socket { s with progress := .connected }) → wp env (f true) Q w')
    (hfalse : ∀ w', On fd w w' → w'.refusals = w.refusals →
      w'.objects.cells fd = some (.socket (afterConnect w'.errno s)) → wp env (f false) Q w') :
    wp env (sys (.connect fd list addr) >>= f) Q w := by
  refine wp_step ⟨⟨s, hs⟩, addrs, hlist, haddr⟩ fun ok w' hreply => ?_
  cases ok with
  | false =>
      obtain ⟨errno, rfl⟩ := hreply
      have hon := touch_on w fd (afterConnect errno)
      exact hfalse _ ⟨hon.others, hon.internal, hon.refusals⟩ (touch_refusals w fd _) (touch_self hs)
  | true =>
      cases hreply
      exact htrue _ (touch_on ..) (touch_refusals ..) (touch_self hs)

theorem wp_soError {f : Option Nat → Os α} (hs : w.objects.cells fd = some (.socket s))
    (hnone : ∀ w', Quiet w w' → wp env (f none) Q w')
    (hsome : ∀ soError w', On fd w w' → w'.refusals = w.refusals →
      w'.objects.cells fd = some (.socket (afterSoError soError s)) → wp env (f (some soError)) Q w') :
    wp env (sys (.soError fd) >>= f) Q w := by
  refine wp_step ⟨s, hs⟩ fun soError w' hreply => ?_
  cases soError with
  | none =>
      obtain ⟨errno, rfl⟩ := hreply
      exact hnone _ ⟨rfl, rfl, rfl⟩
  | some soError =>
      cases hreply
      exact hsome soError _ (touch_on ..) (touch_refusals ..) (touch_self hs)

end Calls

section Functions

variable {w : World} {fd : Nat} {s : Socket} {error : Option ErrorText} {Q : Int × Option ErrorText → World → Prop}

theorem wp_refuse (h : ∀ error, Q (-1, error) w) : wp env refuse Q w :=
  wp_errno (h _)

theorem wp_setOptions (hs : w.objects.cells fd = some (.socket s)) (options : List SockOption)
    (h : ∀ r w', Quiet w w' → Q r w') : wp env (setOptions fd error options) Q w := by
  induction options generalizing w with
  | nil => exact h _ _ ⟨rfl, rfl, rfl⟩
  | cons option options ih =>
      refine wp_setsockopt hs fun ok w' hquiet => ?_
      cases ok with
      | false => exact wp_refuse fun error => h _ _ hquiet
      | true =>
          refine ih (by rw [hquiet.objects, hs]) fun r w'' hquiet' => h r w'' ?_
          exact ⟨hquiet'.objects.trans hquiet.objects, hquiet'.internal.trans hquiet.internal,
            hquiet'.refusals.trans hquiet.refusals⟩

theorem wp_setNonblocking (hs : w.objects.cells fd = some (.socket s)) (nonblocking : Bool)
    (hok : ∀ w', On fd w w' → w'.refusals = w.refusals →
      w'.objects.cells fd = some (.socket { s with flags := { s.flags with nonblock := nonblocking } }) →
      Q (0, error) w')
    (hrefused : ∀ error w', On fd w w' → w'.refusals = w.refusals + 1 → w'.objects.cells fd = some (.socket s) →
      Q (-1, error) w') :
    wp env (akTcpSocketSetNonblocking fd error nonblocking) Q w := by
  have hfailed : ∀ w', w'.objects = w.objects → w'.internal = w.internal → w'.refusals = w.refusals + 1 →
      wp env refuse Q w' := by
    intro w' hobjects hinternal hrefusals
    refine wp_refuse fun error => hrefused error w' ⟨fun i _ => by rw [hobjects], hinternal, by omega⟩ hrefusals ?_
    rw [hobjects, hs]
  refine wp_getfl hs hfailed ?_
  exact wp_setfl hs hfailed hok

theorem wp_connectLoop {Q : Attempt → World → Prop} {list timeoutMs : Nat} {addrs : List Nat} (rest : List Nat)
    (hs : w.objects.cells fd = some (.socket s)) (hlist : w.objects.cells list = some (.addrs addrs))
    (hrest : ∀ addr ∈ rest, addr ∈ addrs)
    (h : ∀ attempt w' progress, On fd w w' → w'.refusals = w.refusals →
      w'.objects.cells fd = some (.socket { s with progress }) → (attempt = .connected → progress = .connected) →
      Q attempt w') : wp env (connectLoop fd list timeoutMs rest) Q w := by
  have hne : list ≠ fd := by
    rintro rfl
    rw [hs] at hlist
    cases hlist
  -- the walk goes on from a world that differs from `w` in the socket only
  induction rest generalizing w s with
  | nil => exact h _ _ s.progress On.refl rfl hs nofun
  | cons addr rest ih =>
      have hnext : ∀ w' progress, On fd w w' → w'.refusals = w.refusals →
          w'.objects.cells fd = some (.socket { s with progress }) →
          wp env (connectLoop fd list timeoutMs rest) Q w' := by
        intro w' progress hon hrefusals hs'
        refine ih hs' (by rw [hon.others list hne, hlist]) (fun a ha => hrest a (List.mem_cons_of_mem _ ha)) ?_
        intro attempt w'' progress' hon' hrefusals' hs'' hattempt
        exact h attempt w'' progress' (hon.trans hon') (hrefusals'.trans hrefusals) hs'' hattempt
      refine wp_connect hs hlist (hrest addr (List.mem_cons_self ..)) ?_ ?_
      · intro w' hon hrefusals hs'
        exact h _ _ .connected hon hrefusals hs' fun _ => rfl
      · intro w₁ hon₁ hrefusals₁ hs₁
        refine wp_errno ?_
        split_ifs with hpending
        · have hgaveUp : ∀ w' errno, Quiet w₁ w' → Q (.gaveUp errno) w' := by
            intro w' errno hquiet
            refine h _ _ (afterConnect w₁.errno s).progress (hon₁.trans hquiet.on)
              (hquiet.refusals.trans hrefusals₁) ?_ nofun
            rw [hquiet.objects, hs₁]
            rfl
          refine wp_poll hs₁ fun ready w₂ hquiet₂ => ?_
          have hs₂ : w₂.objects.cells fd = some (.socket (afterConnect w₁.errno s)) := by rw [hquiet₂.objects, hs₁]
          match ready with
          | none => exact wp_errno (hgaveUp _ _ hquiet₂)
          | some 0 => exact hgaveUp _ _ hquiet₂
          | some (_ + 1) =>
              refine wp_soError hs₂ ?_ ?_
              · intro w₃ hquiet₃
                refine wp_errno (hgaveUp _ _ ⟨?_, ?_, ?_⟩)
                · rw [hquiet₃.objects, hquiet₂.objects]
                · rw [hquiet₃.internal, hquiet₂.internal]
                · rw [hquiet₃.refusals, hquiet₂.refusals]
              · intro soError w₃ hon₃ hrefusals₃ hs₃
                have hon : On fd w w₃ := (hon₁.trans hquiet₂.on).trans hon₃
                have hrefusals : w₃.refusals = w.refusals :=
                  hrefusals₃.trans (hquiet₂.refusals.trans hrefusals₁)
                simp only [afterSoError, afterConnect, if_pos hpending.1, if_true] at hs₃
                match soError with
                | 0 => exact h _ _ .connected hon hrefusals hs₃ fun _ => rfl
                | soError + 1 =>
                    refine wp_setErrno fun w₄ hquiet₄ => ?_
                    refine hnext w₄ .idle (hon.trans hquiet₄.on) (hquiet₄.refusals.trans hrefusals) ?_
                    rw [hquiet₄.objects, hs₃]
                    rfl
        · exact hnext w₁ _ hon₁ hrefusals₁ hs₁

theorem wp_finishConnect {list timeoutMs : Nat} {addrs : List Nat} {attempt : Attempt}
    (hs : w.objects.cells fd = some (.socket s)) (hlist : w.objects.cells list = some (.addrs addrs))
    (hblocking : timeoutMs = 0 → s.flags.nonblock = false)
    (h : ∀ r w' flags, On fd { w with objects := w.objects.free list } w' →
      w'.objects.cells fd = some (.socket { s with flags }) → (r.1 = 0 → attempt = .connected) →
      (r.1 = 0 ∨ r.1 = -1) → (w'.refusals = w.refusals → flags.nonblock = false) → Q r w') :
    wp env (finishConnect fd error list timeoutMs attempt) Q w := by
  have hne : fd ≠ list := by
    rintro rfl
    rw [hs] at hlist
    cases hlist
  refine wp_step ⟨addrs, hlist⟩ fun _ w₁ hreply => ?_
  cases hreply
  have hs₁ : (w.objects.free list).cells fd = some (.socket s) := by rw [Heap.free_of_ne hne, hs]
  have hend : ∀ w' flags, On fd { w with objects := w.objects.free list } w' →
      w'.objects.cells fd = some (.socket { s with flags }) →
      (w'.refusals = w.refusals → flags.nonblock = false) →
      wp env (attemptResult error attempt) Q w' := by
    intro w' flags hon hs' hflags
    cases attempt with
    | connected => exact h _ _ flags hon hs' (fun _ => rfl) (.inl rfl) hflags
    | gaveUp error => exact h _ _ flags hon hs' nofun (.inr rfl) hflags
    | exhausted => exact wp_refuse fun _ => h _ _ flags hon hs' nofun (.inr rfl) hflags
  split_ifs with htimeout
  · refine wp_bind (wp_bind (wp_setNonblocking (s := s) hs₁ false ?_ ?_))
    · intro w' hon _ hs'
      exact hend w' _ hon hs' fun _ => rfl
    · intro _ w' hon hrefusals hs'
      refine hend w' s.flags hon hs' fun heq => ?_
      rw [heq] at hrefusals
      exact absurd hrefusals (Nat.succ_ne_self _).symm
  · exact hend _ s.flags On.refl hs₁ fun _ => hblocking (by omega)

theorem wp_socketConnect {host : Option String} {port timeoutMs : Nat} (hs : w.objects.cells fd = some (.socket s))
    (hblocking : s.flags.nonblock = false)
    (h : ∀ r w' s', On fd w w' → w'.objects.cells fd = some (.socket s') → (r.1 = 0 → s'.progress = .connected) →
      (r.1 = 0 ∨ r.1 = -1) → (w'.refusals = w.refusals → s'.flags.nonblock = false) → Q r w') :
    wp env (akTcpSocketConnect fd error host port timeoutMs) Q w := by
  cases host with
  | none => exact h _ _ s On.refl hs nofun (.inr rfl) fun _ => hblocking
  | some host =>
      refine wp_step trivial fun result w₁ hreply => ?_
      match result with
      | .error code =>
          cases hreply
          exact h _ _ s On.refl hs nofun (.inr rfl) fun _ => hblocking
      | .ok (list, addrs) =>
          obtain ⟨rfl, rfl⟩ := hreply
          set w₁ : World := { w with objects := w.objects.alloc (.addrs addrs) }
          have hlist₁ : w₁.objects.cells w.objects.next = some (.addrs addrs) := Heap.alloc_self _ _
          have hs₁ : w₁.objects.cells fd = some (.socket s) := Heap.alloc_old hs
          have hne : w.objects.next ≠ fd := (w.objects.lt_next hs).ne'
          -- an address list that comes and goes leaves the other objects as they were
          have hback : ∀ w₂ w₃, On fd w₁ w₂ →
              On fd { w₂ with objects := w₂.objects.free w.objects.next } w₃ → On fd w w₃ := by
            intro w₂ w₃ hon₂ hon₃
            refine ⟨fun i hi => ?_, hon₃.internal.trans hon₂.internal, hon₂.refusals.trans hon₃.refusals⟩
            rw [hon₃.others i hi]
            by_cases hil : i = w.objects.next
            · rw [hil, Heap.free_self, w.objects.fresh _ le_rfl]
            · rw [Heap.free_of_ne hil, hon₂.others i hi, Heap.alloc_of_ne hil]
          have hwalk : ∀ w₂ s₂ error, On fd w₁ w₂ → w₂.objects.cells fd = some (.socket s₂) →
              (timeoutMs = 0 → s₂.flags.nonblock = false) →
              wp env (connectLoop fd w.objects.next timeoutMs addrs >>= fun attempt =>
                finishConnect fd error w.objects.next timeoutMs attempt) Q w₂ := by
            intro w₂ s₂ error hon₂ hs₂ hblocking₂
            have hlist₂ : w₂.objects.cells w.objects.next = some (.addrs addrs) := by rw [hon₂.others _ hne, hlist₁]
            refine wp_bind (wp_connectLoop addrs hs₂ hlist₂ (fun _ ha => ha) ?_)
            intro attempt w₃ progress hon₃ hrefusals₃ hs₃ hattempt
            have hlist₃ : w₃.objects.cells w.objects.next = some (.addrs addrs) := by rw [hon₃.others _ hne, hlist₂]
            refine wp_finishConnect hs₃ hlist₃ hblocking₂ ?_
            intro r w₄ flags hon₄ hs₄ hr hr' hflags
            refine h r w₄ _ (hback w₃ w₄ (hon₂.trans hon₃) hon₄) hs₄ (fun h0 => hattempt (hr h0)) hr' ?_
            intro hrefusals
            have h₂ := hon₂.refusals
            have h₄ := hon₄.refusals
            exact hflags (by dsimp only at h₄; change w.refusals ≤ _ at h₂; omega)
          split_ifs with htimeout
          · refine wp_bind (wp_setNonblocking hs₁ true ?_ ?_)
            · intro w₂ hon₂ _ hs₂
              exact hwalk w₂ _ error hon₂ hs₂ fun h0 => by omega
            · intro error w₂ hon₂ hrefusals₂ hs₂
              refine wp_step ⟨addrs, by rw [hon₂.others _ hne, hlist₁]⟩ fun _ w₃ hreply => ?_
              cases hreply
              refine h _ _ s (hback w₂ _ hon₂ On.refl) ?_ nofun (.inr rfl) fun _ => hblocking
              rw [Heap.free_of_ne hne.symm, hs₂]
          · exact hwalk w₁ s error On.refl hs₁ fun _ => hblocking

end Functions

end Ak24.TcpSockets
