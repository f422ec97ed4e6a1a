import Ak24.ContextScoping
import Ak24.MapIteration
import Ak24.ModuleUnload
import Ak24.Objects

namespace Ak24.ModuleRegistry

open MapModel Objects Transition
open ContextScoping (stringOps)
open ModuleUnload (ModuleState)

abbrev Path := List UInt8

abbrev Addr := Nat

structure Library where
  name : Path
  opens : Nat
  opened : 0 < opens

/-- What the system has open, by the handles of `dlopen`: different libraries
have different handles. -/
abbrev Libraries := Nat → Option Library

def reopened (name : Path) : Option Library → Library
  | none => ⟨name, 1, Nat.one_pos⟩
  | some library => ⟨library.name, library.opens + 1, Nat.succ_pos _⟩

def released : Option Library → Option Library
  | none => none
  | some library =>
    if h : 1 < library.opens then some ⟨library.name, library.opens - 1, Nat.sub_pos_of_lt h⟩ else none

def dlopen (libraries : Libraries) (dlHandle : Nat) (name : Path) : Libraries :=
  Function.update libraries dlHandle (some (reopened name (libraries dlHandle)))

def dlclose (libraries : Libraries) (dlHandle : Nat) : Libraries :=
  Function.update libraries dlHandle (released (libraries dlHandle))

structure LoadOptions where
  modulePath : Addr
  threadSafe : Bool
  deriving DecidableEq, Repr

structure Instance where
  dlHandle : Nat
  path : Path
  moduleCtx : Nat
  state : ModuleState
  refCount : Nat
  deriving DecidableEq, Repr

structure Handle where
  moduleHandle : Nat
  moduleCtx : Nat
  internalInstance : Nat
  deriving DecidableEq, Repr

/-- The caller's strings, the registry once its manager is created, and the
objects of the loader. -/
structure System where
  strings : Addr → Path
  manager : Option (MapBase Addr Nat)
  instances : Heap Instance
  handles : Heap Handle
  libraries : Libraries

/-- The answers to one load: of the allocator, of the dynamic linker and of the
module's own functions. `name` is what a library is known by when this call is
the first to open it; `stale` says that the block of the new instance is not zero
where `access_mutex` lies. -/
structure LoadReply where
  manager : Bool
  dlopen : Option Nat
  dlerror : Option String
  name : Path
  symbols : Bool
  version : Int
  instanceAlloc : Bool
  pathAlloc : Bool
  stale : Bool
  dladdr : Bool
  mutexAlloc : Bool
  init : Bool
  initError : Option String
  moduleCtx : Nat
  registry : Grants
  handle : Bool

/-- `loaded_modules` keeps pointers to the callers' strings and reads what they
point to now. -/
def System.ops (s : System) : KeyOps Addr := stringOps.through s.strings

def System.registry (s : System) : MapBase Addr Nat := s.manager.getD (mapInit Addr Nat)

def verifyFunctionInModule (fname : Option Path) (expectedPath : Path) : Bool := fname = some expectedPath

def validateModuleCtx (ctx : Nat) : Bool := ctx ≠ 0 && ctx % 8 = 0

def getOrCreateManager (manager : Option (MapBase Addr Nat)) (granted : Bool) : Option (MapBase Addr Nat) :=
  match manager with
  | some registry => some registry
  | none => if granted then some (mapInit Addr Nat) else none

def fname (s : System) (dlHandle : Nat) (reply : LoadReply) : Option Path :=
  if reply.dladdr then (dlopen s.libraries dlHandle reply.name dlHandle).map (·.name) else none

/-- `none` is the release of an `access_mutex` that was never set. -/
def createModuleInstance (s : System) (options : LoadOptions) (reply : LoadReply) :
    Option (Except String Instance × Libraries) :=
  match reply.dlopen with
  | none => some (.error (reply.dlerror.getD "Failed to load module"), s.libraries)
  | some dlHandle =>
    let libraries := dlopen s.libraries dlHandle reply.name
    let path := s.strings options.modulePath
    if !reply.symbols then some (.error "Module missing required functions", dlclose libraries dlHandle)
    else if reply.version ≠ 1 then some (.error "Module API version mismatch", dlclose libraries dlHandle)
    else if !reply.instanceAlloc then some (.error "Failed to allocate module instance", dlclose libraries dlHandle)
    else if !reply.pathAlloc then some (.error "Failed to allocate path string", dlclose libraries dlHandle)
    else if !verifyFunctionInModule (fname s dlHandle reply) path then
      if reply.stale then none else some (.error "Function pointer validation failed", dlclose libraries dlHandle)
    else if options.threadSafe && !reply.mutexAlloc then
      some (.error "Failed to allocate mutex", dlclose libraries dlHandle)
    else if !reply.init then some (.error (reply.initError.getD "Module init failed"), dlclose libraries dlHandle)
    else if !validateModuleCtx reply.moduleCtx then
      some (.error "Module context validation failed", dlclose libraries dlHandle)
    else some (.ok ⟨dlHandle, path, reply.moduleCtx, .loaded, 0⟩, libraries)

def destroyModuleInstance (s : System) (id : Nat) : System :=
  match s.instances.cells id with
  | none => s
  | some inst => { s with instances := s.instances.free id, libraries := dlclose s.libraries inst.dlHandle }

/-- `none` is an access outside the registry's buckets or through a dangling
pointer. -/
def loadModuleImpl (s : System) (options : LoadOptions) (reply : LoadReply) : Option (Except String Nat × System) :=
  match getOrCreateManager s.manager reply.manager with
  | none => some (.error "Failed to initialize module manager", s)
  | some registry => do
    match ← mapGet s.ops registry options.modulePath with
    | some _ => some (.error "Module already loaded", { s with manager := some registry })
    | none =>
      match ← createModuleInstance s options reply with
      | (.error error, libraries) => some (.error error, { s with manager := some registry, libraries })
      | (.ok inst, libraries) =>
        let id := s.instances.next
        -- the result of the set is not looked at
        let (_, registered) ← mapSet s.ops registry options.modulePath id reply.registry
        let instances := s.instances.alloc inst
        if reply.handle then
          some (.ok s.handles.next,
            { s with
              manager := some registered
              instances
              handles := s.handles.alloc ⟨inst.dlHandle, inst.moduleCtx, id⟩
              libraries })
        else
          let registry ← mapRemove s.ops registered options.modulePath
          some (.error "Failed to allocate module handle",
            destroyModuleInstance { s with manager := some registry, instances, libraries } id)

def findInstance (s : System) (registry : MapBase Addr Nat) (moduleHandle : Nat) :
    Nat → MapIter → Option (Option (Addr × Nat))
  | 0, _ => none
  | fuel + 1, iter =>
    match mapNext registry iter with
    | none => none
    | some (none, _) => some none
    | some (some key, iter) =>
      match mapGet s.ops registry key with
      | none => none
      | some none => findInstance s registry moduleHandle fuel iter
      | some (some id) =>
        match s.instances.cells id with
        | none => none
        | some inst =>
          if inst.dlHandle = moduleHandle then some (some (key, id))
          else findInstance s registry moduleHandle fuel iter

def unloadStateError : ModuleState → String
  | .unloading => "Module is already being unloaded"
  | .loading => "Module is still loading"
  | _ => "Module is in invalid state"

def unloadModuleImpl (s : System) (handle : Option Nat) (granted : Bool) : Option (Except String Unit × System) :=
  match handle with
  | none => some (.error "Invalid module handle", s)
  | some h =>
    match getOrCreateManager s.manager granted with
    | none => some (.error "Module manager not initialized", s)
    | some registry => do
      let handle ← s.handles.cells h
      match ← findInstance s registry handle.moduleHandle (registry.buckets.flatten.length + 1) mapIter with
      | none => some (.error "Module not found in registry", { s with manager := some registry })
      | some (key, id) =>
        let inst ← s.instances.cells id
        if inst.state ≠ .loaded then
          some (.error (unloadStateError inst.state), { s with manager := some registry })
        else if 0 < inst.refCount then some (.error "Module still in use", { s with manager := some registry })
        else
          let registry ← mapRemove s.ops registry key
          let s := destroyModuleInstance { s with manager := some registry } id
          some (.ok (), { s with handles := s.handles.free h })

inductive Event
  | load (options : LoadOptions) (reply : LoadReply) (result : Except String Nat)
  | unload (handle : Option Nat) (granted : Bool) (result : Except String Unit)
  | enter (handle : Nat)
  | leave (handle : Nat)
  | write (addr : Addr) (path : Path)

def System.setRefCount (s : System) (id : Nat) (inst : Instance) (refCount : Nat) : System :=
  { s with instances := s.instances.store id { inst with refCount } }

/-- The calls one after the other, with the callers that enter a module and leave
it, and what the application writes to its strings. -/
inductive Step : System → List Event → System → Prop
  | load (s s' : System) (options : LoadOptions) (reply : LoadReply) (result : Except String Nat)
    (h : loadModuleImpl s options reply = some (result, s')) : Step s [.load options reply result] s'
  | unload (s s' : System) (handle : Option Nat) (granted : Bool) (result : Except String Unit)
    (h : unloadModuleImpl s handle granted = some (result, s')) : Step s [.unload handle granted result] s'
  | enter (s : System) (h : Nat) (handle : Handle) (inst : Instance) (hhandle : s.handles.cells h = some handle)
    (hinst : s.instances.cells handle.internalInstance = some inst) (hloaded : inst.state = .loaded) :
    Step s [.enter h] (s.setRefCount handle.internalInstance inst (inst.refCount + 1))
  | leave (s : System) (h : Nat) (handle : Handle) (inst : Instance) (hhandle : s.handles.cells h = some handle)
    (hinst : s.instances.cells handle.internalInstance = some inst) (hinside : 0 < inst.refCount) :
    Step s [.leave h] (s.setRefCount handle.internalInstance inst (inst.refCount - 1))
  | write (s : System) (addr : Addr) (path : Path) :
    Step s [.write addr path] { s with strings := Function.update s.strings addr path }

/-- Before the first call, with whatever strings and libraries the application
has. -/
def System.new (strings : Addr → Path) (libraries : Libraries) : System :=
  ⟨strings, none, Heap.empty Instance, Heap.empty Handle, libraries⟩

end Ak24.ModuleRegistry
