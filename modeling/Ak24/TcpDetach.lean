import Ak24.TcpServerModel

namespace Ak24.TcpDetach

open TcpServerModel hiding Step WorkerPhase workerStep
open Transition

structure Ctx where
  detached : Bool
  remoteIp : RemoteIp

inductive Part
  | mutex
  | detached
  | remoteIp
  deriving DecidableEq, Repr

inductive Party
  | worker
  | owner
  deriving DecidableEq, Repr

inductive Event
  | accessed (part : Part)
  | destroyedMutex
  | freed (party : Party)
  deriving DecidableEq, Repr

structure Callbacks where
  onHandle : Bool
  onDisconnect : Bool
  deriving DecidableEq, Repr

/-- Where `worker_task_fn` is: in the handler, which may call
`ak_tcp_ctx_detach`, then in `ak_tcp_ctx_is_detached`, then in what the flag it
has read makes it do. `find` has the trackers still to compare. -/
inductive WorkerPhase
  | handle
  | detachLock
  | detachSet
  | detachUnlock
  | handled
  | isDetachedLock
  | isDetachedRead
  | isDetachedUnlock (detached : Bool)
  | onDisconnect
  | trackerLock (detached : Bool)
  | find (detached : Bool) (rest : List IpTracker)
  | leave (detached : Bool)
  | destroy
  | free
  | done
  deriving DecidableEq

/-- Where the thread that the handler gives the context to is; it has the
context once the detach has returned. -/
inductive OwnerPhase
  | waiting
  | owns
  | destroy
  | free
  | freed
  deriving DecidableEq, Repr

structure Handover where
  server : Server
  ctx : Ctx
  worker : WorkerPhase
  owner : OwnerPhase

def workerStep (cfg : Callbacks) (detach : Bool) (s : Handover) : Option (Handover × List Event) :=
  match s.worker with
  | .handle =>
    if cfg.onHandle then some ({ s with worker := if detach then .detachLock else .handled }, [])
    else some ({ s with worker := .isDetachedLock }, [])
  | .detachLock => some ({ s with worker := .detachSet }, [.accessed .mutex])
  | .detachSet =>
    some ({ s with worker := .detachUnlock, ctx := { s.ctx with detached := true } }, [.accessed .detached])
  | .detachUnlock => some ({ s with worker := .handled, owner := .owns }, [.accessed .mutex])
  | .handled => some ({ s with worker := .isDetachedLock }, [])
  | .isDetachedLock => some ({ s with worker := .isDetachedRead }, [.accessed .mutex])
  | .isDetachedRead => some ({ s with worker := .isDetachedUnlock s.ctx.detached }, [.accessed .detached])
  | .isDetachedUnlock detached =>
    some ({ s with worker := if !detached && cfg.onDisconnect then .onDisconnect else .trackerLock detached },
      [.accessed .mutex])
  | .onDisconnect => some ({ s with worker := .trackerLock false }, [])
  | .trackerLock detached => some ({ s with worker := .find detached s.server.ipTrackers }, [])
  | .find detached [] => some ({ s with worker := .leave detached }, [])
  | .find detached (t :: rest) =>
    if t.ip = s.ctx.remoteIp then
      some ({ s with worker := .leave detached, server := ipTrackerDecrement s.server s.ctx.remoteIp },
        [.accessed .remoteIp])
    else some ({ s with worker := .find detached rest }, [.accessed .remoteIp])
  | .leave detached => some ({ s with worker := if detached then .done else .destroy, server := s.server.leave }, [])
  | .destroy => some ({ s with worker := .free }, [.accessed .mutex])
  | .free => some ({ s with worker := .done }, [.freed .worker])
  | .done => none

def ownerStep (s : Handover) : Option (Handover × List Event) :=
  match s.owner with
  | .waiting => none
  | .owns => some ({ s with owner := .destroy }, [])
  | .destroy => some ({ s with owner := .free }, [.destroyedMutex])
  | .free => some ({ s with owner := .freed }, [.freed .owner])
  | .freed => none

def holdsTrackers : WorkerPhase → Bool
  | .find _ _ => true
  | _ => false

/-- Every order of the steps of the worker, the new owner and the server's other
threads, which leave the trackers alone while the worker holds their mutex. -/
inductive Step (cfg : Callbacks) : Handover → List Event → Handover → Prop
  | worker (s s' : Handover) (detach : Bool) (events : List Event) (h : workerStep cfg detach s = some (s', events)) :
    Step cfg s events s'
  | owner (s s' : Handover) (events : List Event) (h : ownerStep s = some (s', events)) : Step cfg s events s'
  | others (s : Handover) (server : Server) (h : holdsTrackers s.worker → server.ipTrackers = s.server.ipTrackers) :
    Step cfg s [] { s with server }

def Handover.start (server : Server) (ip : RemoteIp) : Handover := ⟨server, ⟨false, ip⟩, .handle, .waiting⟩

def accessesLeft : WorkerPhase → Bool
  | .find detached [] | .leave detached => !detached
  | .done => false
  | _ => true

def Accesses (e : Event) : Prop := ∃ part, e = .accessed part

def Frees (e : Event) : Prop := e = .freed .owner

/-- The new owner frees the context only when the worker is done with it. -/
def FreesUnused (s : Handover) (events : List Event) : Prop := .freed .owner ∈ events → accessesLeft s.worker = false

section Steps

variable {cfg : Callbacks} {detach : Bool} {s s' : Handover} {events : List Event}

theorem workerStep_owner (h : workerStep cfg detach s = some (s', events)) :
    .freed .owner ∉ events ∧ (s'.owner = .freed → s.owner = .freed) := by
  rw [workerStep] at h
  split at h
  all_goals try split_ifs at h
  all_goals cases h
  all_goals simp

theorem workerStep_unused (h : workerStep cfg detach s = some (s', events)) (hunused : accessesLeft s.worker = false) :
    accessesLeft s'.worker = false ∧ s'.owner = s.owner ∧ events = [] := by
  obtain ⟨server, ctx, worker, owner⟩ := s
  cases worker with
  | find detached rest =>
      cases rest with
      | nil =>
          cases h
          exact ⟨hunused, rfl, rfl⟩
      | cons => cases hunused
  | leave detached =>
      cases detached with
      | true =>
          cases h
          exact ⟨rfl, rfl, rfl⟩
      | false => cases hunused
  | done => cases h
  | handle | detachLock | detachSet | detachUnlock | handled | isDetachedLock | isDetachedRead | isDetachedUnlock
    | onDisconnect | trackerLock | destroy | free => cases hunused

theorem ownerStep_worker (h : ownerStep s = some (s', events)) :
    s'.worker = s.worker ∧ (s'.owner = .freed → .freed .owner ∈ events) ∧ (∀ e ∈ events, ¬Accesses e) ∧
      (.freed .owner ∈ events → s'.owner = .freed) ∧ s.owner ≠ .freed := by
  rw [ownerStep] at h
  split at h
  all_goals cases h
  all_goals simp [Accesses, *]

end Steps

def UnusedOnceFreed (s : Handover) : Prop := s.owner = .freed → accessesLeft s.worker = false

theorem UnusedOnceFreed.step {cfg : Callbacks} {s s' : Handover} {events : List Event} (h : UnusedOnceFreed s)
    (hs : guarded FreesUnused (Step cfg) s events s') : UnusedOnceFreed s' := by
  obtain ⟨hstep, hguard⟩ := hs
  intro hfreed
  cases hstep with
  | worker s' detach _ hworker =>
      have hbefore := (workerStep_owner hworker).2 hfreed
      exact (workerStep_unused hworker (h hbefore)).1
  | owner s' _ howner =>
      obtain ⟨hsame, hfrees, -⟩ := ownerStep_worker howner
      rw [hsame]
      exact hguard (hfrees hfreed)
  | others server htrackers => exact h hfreed

/-- The worker does not touch a detached context that its new owner has freed, if the
owner frees it when the worker is done with it. -/
theorem no_ctx_access_after_owner_free {cfg : Callbacks} {server : Server} {ip : RemoteIp} {trace : List Event}
    {s : Handover} (hrun : Run (guarded FreesUnused (Step cfg)) (Handover.start server ip) trace s) :
    NoUseAfter Frees Accesses trace := by
  apply hrun.no_use_after UnusedOnceFreed (fun s => s.owner = .freed)
  · exact nofun
  · exact fun s events s' h hs => h.step hs
  · rintro s events s' h ⟨hstep, -⟩
    cases hstep with
    | worker s' detach _ hworker =>
        apply NoUseAfter.of_no_end
        rintro e he rfl
        exact (workerStep_owner hworker).1 he
    | owner s' _ howner => exact .of_no_use (ownerStep_worker howner).2.2.1
    | others => exact List.Pairwise.nil
  · rintro s events s' h ⟨hstep, -⟩ e he rfl
    cases hstep with
    | worker s' detach _ hworker => exact absurd he (workerStep_owner hworker).1
    | owner s' _ howner => exact (ownerStep_worker howner).2.2.2.1 he
    | others => cases he
  · rintro s events s' h ⟨hstep, -⟩ hfreed
    cases hstep with
    | worker s' detach _ hworker =>
        obtain ⟨-, hsame, rfl⟩ := workerStep_unused hworker (h hfreed)
        exact ⟨hsame.trans hfreed, nofun⟩
    | owner s' _ howner => exact absurd hfreed (ownerStep_worker howner).2.2.2.2
    | others => exact ⟨hfreed, nofun⟩

section Schedules

def callbacks : Callbacks := ⟨true, true⟩

def loopback : RemoteIp := ⟨[49, 50, 55, 46, 48, 46, 48, 46, 49], by decide⟩

def started : Handover := .start ⟨true, false, 1, [⟨loopback, 1, 0, 1⟩], fun _ => 0⟩ loopback

theorem detached_run {G : Handover → List Event → Prop}
    (hG : ∀ s events, .freed .owner ∉ events → G s events) :
    Run (guarded G (Step callbacks)) started [.accessed .mutex, .accessed .detached, .accessed .mutex]
      { started with ctx := ⟨true, loopback⟩, worker := .handled, owner := .owns } := by
  have r₁ : Run (guarded G (Step callbacks)) started _ _ := .next .start ⟨.worker _ _ true _ rfl, hG _ _ (by simp)⟩
  have r₂ := r₁.next ⟨.worker _ _ true _ rfl, hG _ _ (by simp)⟩
  have r₃ := r₂.next ⟨.worker _ _ true _ rfl, hG _ _ (by simp)⟩
  exact r₃.next ⟨.worker _ _ true _ rfl, hG _ _ (by simp)⟩

/-- The new owner waits until the worker has released the address. -/
theorem free_after_release : ∃ trace s, Run (guarded FreesUnused (Step callbacks)) started trace s ∧
    .freed .owner ∈ trace ∧ NoUseAfter Frees Accesses trace := by
  have r₀ := detached_run (G := FreesUnused) fun _ _ hkeeps hfrees => absurd hfrees hkeeps
  have r₁ := r₀.next ⟨.worker _ _ false _ rfl, nofun⟩
  have r₂ := r₁.next ⟨.worker _ _ false _ rfl, by simp [FreesUnused]⟩
  have r₃ := r₂.next ⟨.worker _ _ false _ rfl, by simp [FreesUnused]⟩
  have r₄ := r₃.next ⟨.worker _ _ false _ rfl, by simp [FreesUnused]⟩
  have r₅ := r₄.next ⟨.worker _ _ false _ rfl, nofun⟩
  have r₆ := r₅.next ⟨.worker _ _ false [.accessed .remoteIp] rfl, by simp [FreesUnused]⟩
  have r₇ := r₆.next ⟨.owner _ _ _ rfl, nofun⟩
  have r₈ := r₇.next ⟨.owner _ _ _ rfl, by simp [FreesUnused]⟩
  have r₉ := r₈.next ⟨.owner _ _ _ rfl, fun _ => rfl⟩
  exact ⟨_, _, r₉, by simp, no_ctx_access_after_owner_free r₉⟩

/-- The new owner frees the context before the worker asks whether it is
detached. -/
theorem access_after_owner_free : ∃ trace s, Run (Step callbacks) started trace s ∧
    ¬NoUseAfter Frees Accesses trace := by
  have r₀ := (detached_run (G := fun _ _ => True) fun _ _ _ => trivial).of_guarded
  have r₁ := r₀.next (.worker _ _ false _ rfl)
  have r₂ := r₁.next (.owner _ _ _ rfl)
  have r₃ := r₂.next (.owner _ _ _ rfl)
  have r₄ := r₃.next (.owner _ _ _ rfl)
  have r₅ := r₄.next (.worker _ _ false _ rfl)
  exact ⟨_, _, r₅, by simp [NoUseAfter, Frees, Accesses]⟩

end Schedules

end Ak24.TcpDetach
