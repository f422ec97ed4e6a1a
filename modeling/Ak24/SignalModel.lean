import Ak24.ListModel

namespace Ak24.SignalModel

open Objects ListModel

variable {ι α : Type}

/-- A `struct sigaction`: the one that installs `ak_signal_dispatch`, or one of the
rest of the process. -/
inductive Action (α : Type)
  | akSignalDispatch
  | foreign (a : α)
  deriving DecidableEq, Repr

structure Entry (α : Type) where
  signum : Int
  handler : Option Nat
  oldAction : Option (Action α)
  deriving DecidableEq, Repr

/-- The variables of the signal handlers, with the entries that have been allocated
and the actions of the signals. The items of the list are pointers to entries. -/
structure Signals (ι α : Type) where
  handlers : ListModel.State Nat
  initialized : Bool
  mutex : Option ι
  entries : Heap (Entry α)
  dispositions : Int → Action α

structure Grants where
  alloc : Bool
  sigaction : Bool
  push : ListModel.Grants
  deriving DecidableEq, Repr

def nsig : Int := 65

/-- The action that was replaced, or nothing when the call fails, as it does on a
number that is no signal. -/
def sigaction (s : Signals ι α) (signum : Int) (act : Action α) (granted : Bool) : Option (Action α × Signals ι α) :=
  if granted ∧ 0 < signum ∧ signum < nsig then
    some (s.dispositions signum, { s with dispositions := Function.update s.dispositions signum act })
  else none

def nextEntry (s : Signals ι α) (iter : ListIter) : Option (Option (Nat × Entry α) × ListIter) := do
  let (item, iter) ← listNext s.handlers.list iter
  match item with
  | none => some (none, iter)
  | some item => do
    let p ← s.handlers.heap.cells item
    let entry ← s.entries.cells p
    some (some (p, entry), iter)

inductive RegisterPlace
  | enter
  | lock
  | scan (iter : ListIter)
  | update (p : Nat)
  | create
  | install (p : Nat)
  | push (p : Nat)
  | unlock
  deriving DecidableEq, Repr

inductive UnregisterPlace
  | lock
  | check
  | scan (iter : ListIter) (index : Nat)
  | restore (p index : Nat)
  | remove (index : Nat)
  | unlock
  deriving DecidableEq, Repr

inductive DispatchPlace
  | lock
  | check
  | scan (iter : ListIter)
  | invoke (handler : Nat) (iter : ListIter)
  | unlock
  deriving DecidableEq, Repr

inductive DeinitPlace
  | enter
  | lock
  | scan (iter : ListIter)
  | restore (p : Nat) (iter : ListIter)
  | finish
  | unlock
  deriving DecidableEq, Repr

section Functions

variable (i : ι) (s : Signals ι α) (grants : Grants)

/-- One step of the thread `i` in `ak_register_signal_handler`, to its next place
or back to the caller. Here and below `none` is a wait for the mutex, or an access
to an item or an entry that is not there. -/
def akRegisterSignalHandler (signum : Int) (handler : Option Nat) :
    RegisterPlace → Option (Option RegisterPlace × Signals ι α)
  | .enter => if handler = none ∨ !s.initialized then some (none, s) else some (some .lock, s)
  | .lock => if s.mutex = none then some (some (.scan listIter), { s with mutex := some i }) else none
  | .scan iter => do
    let (entry, iter) ← nextEntry s iter
    match entry with
    | none => some (some .create, s)
    | some (p, entry) => if entry.signum = signum then some (some (.update p), s) else some (some (.scan iter), s)
  | .update p => do
    let entry ← s.entries.cells p
    some (some .unlock, { s with entries := s.entries.store p { entry with handler } })
  | .create =>
    if !grants.alloc then some (some .unlock, s)
    else some (some (.install s.entries.next), { s with entries := s.entries.alloc ⟨signum, handler, none⟩ })
  | .install p =>
    match sigaction s signum .akSignalDispatch grants.sigaction with
    | none => some (some .unlock, s)
    | some (old, s) => do
      let entry ← s.entries.cells p
      some (some (.push p), { s with entries := s.entries.store p { entry with oldAction := some old } })
  | .push p => do
    let (_, handlers) ← listPush s.handlers p grants.push
    some (some .unlock, { s with handlers })
  | .unlock => some (none, { s with mutex := none })

def akUnregisterSignalHandler (signum : Int) : UnregisterPlace → Option (Option UnregisterPlace × Signals ι α)
  | .lock => if s.mutex = none then some (some .check, { s with mutex := some i }) else none
  | .check => if !s.initialized then some (some .unlock, s) else some (some (.scan listIter 0), s)
  | .scan iter index => do
    let (entry, iter) ← nextEntry s iter
    match entry with
    | none => some (some .unlock, s)
    | some (p, entry) =>
      if entry.signum = signum then some (some (.restore p index), s) else some (some (.scan iter (index + 1)), s)
  | .restore p index => do
    let entry ← s.entries.cells p
    let old ← entry.oldAction
    match sigaction s signum old grants.sigaction with
    | none => some (some (.remove index), s)
    | some (_, s) => some (some (.remove index), s)
  | .remove index => do
    let (_, handlers) ← listRemove s.handlers index
    some (some .unlock, { s with handlers })
  | .unlock => some (none, { s with mutex := none })

/-- The code of a handler is the caller's, and leaves these variables alone. -/
def akSignalDispatch (signum : Int) : DispatchPlace → Option (Option DispatchPlace × Signals ι α)
  | .lock => if s.mutex = none then some (some .check, { s with mutex := some i }) else none
  | .check => if !s.initialized then some (some .unlock, s) else some (some (.scan listIter), s)
  | .scan iter => do
    let (entry, iter) ← nextEntry s iter
    match entry with
    | none => some (some .unlock, s)
    | some (_, entry) =>
      match entry.handler with
      | none => some (some (.scan iter), s)
      | some handler =>
        if entry.signum = signum ∧ grants.alloc then some (some (.invoke handler iter), s)
        else some (some (.scan iter), s)
  | .invoke _ iter => some (some (.scan iter), s)
  | .unlock => some (none, { s with mutex := none })

def akSignalHandlersInit : Signals ι α :=
  { s with handlers := { s.handlers with list := listInit }, initialized := true }

def akSignalHandlersDeinit : DeinitPlace → Option (Option DeinitPlace × Signals ι α)
  | .enter => if !s.initialized then some (none, s) else some (some .lock, s)
  | .lock => if s.mutex = none then some (some (.scan listIter), { s with mutex := some i }) else none
  | .scan iter => do
    let (entry, iter) ← nextEntry s iter
    match entry with
    | none => some (some .finish, s)
    | some (p, _) => some (some (.restore p iter), s)
  | .restore p iter => do
    let entry ← s.entries.cells p
    let old ← entry.oldAction
    match sigaction s entry.signum old grants.sigaction with
    | none => some (some (.scan iter), s)
    | some (_, s) => some (some (.scan iter), s)
  | .finish => do
    let handlers ← listDeinit s.handlers
    some (some .unlock, { s with handlers, initialized := false })
  | .unlock => some (none, { s with mutex := none })

end Functions

inductive Frame
  | register (signum : Int) (handler : Option Nat) (place : RegisterPlace)
  | unregister (signum : Int) (place : UnregisterPlace)
  | dispatch (signum : Int) (place : DispatchPlace)
  | init
  | deinit (place : DeinitPlace)
  deriving DecidableEq, Repr

def frameStep (i : ι) (s : Signals ι α) (grants : Grants) : Frame → Option (Option Frame × Signals ι α)
  | .register signum handler place =>
    (akRegisterSignalHandler i s grants signum handler place).map fun r => (r.1.map (.register signum handler), r.2)
  | .unregister signum place =>
    (akUnregisterSignalHandler i s grants signum place).map fun r => (r.1.map (.unregister signum), r.2)
  | .dispatch signum place => (akSignalDispatch i s grants signum place).map fun r => (r.1.map (.dispatch signum), r.2)
  | .init => some (none, akSignalHandlersInit s)
  | .deinit place => (akSignalHandlersDeinit i s grants place).map fun r => (r.1.map .deinit, r.2)

inductive Call
  | register (signum : Int) (handler : Option Nat)
  | unregister (signum : Int)
  | init
  | deinit
  deriving DecidableEq, Repr

def Call.frame : Call → Frame
  | .register signum handler => .register signum handler .enter
  | .unregister signum => .unregister signum .lock
  | .init => .init
  | .deinit => .deinit .enter

/-- The threads of a process, each with the calls that it is in, and the innermost
one first: a signal interrupts a thread wherever it is. -/
structure Process (ι α : Type) where
  signals : Signals ι α
  threads : ι → List Frame

inductive Event (ι : Type)
  | called (i : ι) (call : Call)
  | ran (i : ι) (frame : Frame) (grants : Grants)
  | delivered (i : ι) (signum : Int) (holding : Bool)
  deriving DecidableEq, Repr

def Frame.handles (signum : Int) : Frame → Bool
  | .dispatch n _ => n = signum
  | _ => false

def blocked (signum : Int) (stack : List Frame) : Bool := stack.any (Frame.handles signum)

inductive Step [DecidableEq ι] (s : Process ι α) : List (Event ι) → Process ι α → Prop
  | call (i : ι) (call : Call) (hidle : s.threads i = []) :
    Step s [.called i call] { s with threads := Function.update s.threads i [call.frame] }
  | run (i : ι) (frame : Frame) (stack : List Frame) (grants : Grants) (next : Option Frame) (signals : Signals ι α)
    (htop : s.threads i = frame :: stack) (h : frameStep i s.signals grants frame = some (next, signals)) :
    Step s [.ran i frame grants] ⟨signals, Function.update s.threads i (next.toList ++ stack)⟩
  | deliver (i : ι) (signum : Int) (hinstalled : s.signals.dispositions signum = .akSignalDispatch)
    (hblocked : blocked signum (s.threads i) = false) :
    Step s [.delivered i signum (decide (s.signals.mutex = some i))]
      { s with threads := Function.update s.threads i (.dispatch signum .lock :: s.threads i) }

inductive Move
  | call (call : Call)
  | run (grants : Grants)
  | deliver (signum : Int)
  deriving DecidableEq, Repr

def move [DecidableEq α] (s : Process Unit α) : Move → Option (List (Event Unit) × Process Unit α)
  | .call call =>
    if s.threads () = [] then some ([.called () call], { s with threads := Function.update s.threads () [call.frame] })
    else none
  | .run grants =>
    match s.threads () with
    | [] => none
    | frame :: stack =>
      match frameStep () s.signals grants frame with
      | none => none
      | some (next, signals) =>
        some ([.ran () frame grants], ⟨signals, Function.update s.threads () (next.toList ++ stack)⟩)
  | .deliver signum =>
    if s.signals.dispositions signum = .akSignalDispatch ∧ blocked signum (s.threads ()) = false then
      some ([.delivered () signum (decide (s.signals.mutex = some ()))],
        { s with threads := Function.update s.threads () (.dispatch signum .lock :: s.threads ()) })
    else none

def start (actions : Int → α) : Process ι α :=
  ⟨⟨⟨listInit, Heap.empty Nat⟩, false, none, Heap.empty (Entry α), fun signum => .foreign (actions signum)⟩,
    fun _ => []⟩

end Ak24.SignalModel
