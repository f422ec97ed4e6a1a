import Ak24.ModuleRegistry

namespace Ak24.RegistryConsistency

open MapModel MapIteration ModuleRegistry Objects Transition
open MapRefinement hiding Step
open ContextScoping (mapCmpStr_eq_zero)

/-- A load that gets its handle has room in the registry, or is given it, and the
registry is below the number of buckets it can grow to; where the library is not
the one of the path, the block of the new instance is zero. -/
structure LoadKept (s : System) (options : LoadOptions) (reply : LoadReply) : Prop where
  small : s.registry.nnodes.toNat < 2 ^ 30
  zeroed : ∀ dlHandle, reply.dlopen = some dlHandle → reply.stale = true →
    verifyFunctionInModule (fname s dlHandle reply) (s.strings options.modulePath) = true
  room : reply.handle = true →
    reply.registry.node = true ∧ (s.registry.nnodes < s.registry.nbuckets ∨ reply.registry.buckets = true)

def EventKept (s : System) : Event → Prop
  | .load options reply _ => LoadKept s options reply
  | .write addr _ => ∀ node ∈ contents s.registry, node.key ≠ addr
  | _ => True

def Kept (s : System) (events : List Event) : Prop := ∀ e ∈ events, EventKept s e

def Loaded (h : Nat) (trace : List Event) : Prop := ∃ options reply, Event.load options reply (.ok h) ∈ trace

def Unloaded (h : Nat) (trace : List Event) : Prop := ∃ granted, Event.unload (some h) granted (.ok ()) ∈ trace

def Registered (s : System) (id : Nat) : Prop := ∃ key, mapGet s.ops s.registry key = some (some id)

structure LeftAsItWas (s s' : System) : Prop where
  strings : s'.strings = s.strings
  lookups : ∀ key, mapGet s'.ops s'.registry key = mapGet s.ops s.registry key
  instances : s'.instances.cells = s.instances.cells
  handles : s'.handles = s.handles
  libraries : s'.libraries = s.libraries

/-- Each handle that was returned and is not unloaded has one registered
instance, can be unloaded when nobody is inside, and no path has two instances. -/
structure Consistent (trace : List Event) (s : System) : Prop where
  registered : ∀ h, Loaded h trace → ¬Unloaded h trace → ∃ handle inst, s.handles.cells h = some handle ∧
    s.instances.cells handle.internalInstance = some inst ∧ inst.dlHandle = handle.moduleHandle ∧
    Registered s handle.internalInstance ∧
    ∀ id other, Registered s id → s.instances.cells id = some other → other.dlHandle = handle.moduleHandle →
      id = handle.internalInstance
  unloads : ∀ h handle inst granted, s.handles.cells h = some handle →
    s.instances.cells handle.internalInstance = some inst → inst.refCount = 0 →
    ∃ s', unloadModuleImpl s (some h) granted = some (.ok (), s') ∧
      s'.instances.cells handle.internalInstance = none
  paths : ∀ id id' inst inst', s.instances.cells id = some inst → s.instances.cells id' = some inst' →
    inst.path = inst'.path → id = id'

section Libraries

variable {libraries : Libraries} {dlHandle other : Nat} {library : Library}

theorem released_reopened (library : Option Library) (name : Path) :
    released (some (reopened name library)) = library := by
  cases library with
  | none => rfl
  | some library => simp [reopened, released, library.opened]

theorem dlclose_dlopen (libraries : Libraries) (dlHandle : Nat) (name : Path) :
    dlclose (dlopen libraries dlHandle name) dlHandle = libraries := by
  rw [dlclose, dlopen, Function.update_self, Function.update_idem, released_reopened, Function.update_eq_self]

theorem dlclose_of_ne (hne : other ≠ dlHandle) : dlclose libraries dlHandle other = libraries other :=
  Function.update_of_ne hne _ _

theorem dlopen_keeps (dlHandle : Nat) (name : Path) (h : libraries other = some library) :
    ∃ library', dlopen libraries dlHandle name other = some library' ∧ library'.name = library.name := by
  by_cases hne : other = dlHandle
  · subst hne
    refine ⟨reopened name (libraries other), Function.update_self .., ?_⟩
    rw [h]
    rfl
  · exact ⟨library, by rw [dlopen, Function.update_of_ne hne, h], rfl⟩

end Libraries

/-- The registry holds the live instances under their paths, each instance has
its own library open, and each handle its own instance. -/
structure RegistryOk (s : System) : Prop where
  valid : Valid s.ops s.registry
  entries : ∀ key id, Holds s.ops s.registry key id →
    ∃ inst, s.instances.cells id = some inst ∧ inst.path = s.strings key
  live : ∀ id inst, s.instances.cells id = some inst → inst.state = .loaded ∧ ∃ key, Holds s.ops s.registry key id
  libraries : ∀ id inst, s.instances.cells id = some inst →
    ∃ library, s.libraries inst.dlHandle = some library ∧ library.name = inst.path
  handles : ∀ h handle, s.handles.cells h = some handle →
    ∃ inst, s.instances.cells handle.internalInstance = some inst ∧ inst.dlHandle = handle.moduleHandle
  owned : ∀ h h' handle handle', s.handles.cells h = some handle → s.handles.cells h' = some handle' →
    handle.internalInstance = handle'.internalInstance → h = h'

section Instances

variable {s : System} {id id' : Nat} {inst inst' : Instance}

theorem ops_cmp {a b : Addr} : s.ops.cmp a b = 0 ↔ s.strings a = s.strings b := mapCmpStr_eq_zero

theorem holds_congr {a b : Addr} (hab : s.strings a = s.strings b) (h : Holds s.ops s.registry a id) :
    Holds s.ops s.registry b id := by
  obtain ⟨node, hnode, hcmp, hvalue⟩ := h
  exact ⟨node, hnode, ops_cmp.mpr ((ops_cmp.mp hcmp).trans hab), hvalue⟩

theorem RegistryOk.holds_path (h : RegistryOk s) (hid : s.instances.cells id = some inst) :
    ∃ key, Holds s.ops s.registry key id ∧ s.strings key = inst.path := by
  obtain ⟨-, key, hkey⟩ := h.live id inst hid
  obtain ⟨found, hfound, hpath⟩ := h.entries key id hkey
  rw [hid] at hfound
  cases hfound
  exact ⟨key, hkey, hpath.symm⟩

theorem RegistryOk.path_unique (h : RegistryOk s) (hid : s.instances.cells id = some inst)
    (hid' : s.instances.cells id' = some inst') (hpath : inst.path = inst'.path) : id = id' := by
  obtain ⟨key, hkey, hpath₁⟩ := h.holds_path hid
  obtain ⟨key', hkey', hpath₂⟩ := h.holds_path hid'
  exact (holds_congr (hpath₁.trans (hpath.trans hpath₂.symm)) hkey).unique h.valid hkey'

theorem RegistryOk.dlHandle_unique (h : RegistryOk s) (hid : s.instances.cells id = some inst)
    (hid' : s.instances.cells id' = some inst') (hdl : inst.dlHandle = inst'.dlHandle) : id = id' := by
  obtain ⟨library, hlibrary, hname⟩ := h.libraries id inst hid
  obtain ⟨library', hlibrary', hname'⟩ := h.libraries id' inst' hid'
  rw [hdl, hlibrary'] at hlibrary
  cases hlibrary
  exact h.path_unique hid hid' (hname.symm.trans hname')

end Instances

section Calls

variable {s s' : System} {options : LoadOptions} {reply : LoadReply}

theorem getOrCreateManager_registry {granted : Bool} {registry : MapBase Addr Nat}
    (h : getOrCreateManager s.manager granted = some registry) : registry = s.registry := by
  rw [System.registry]
  cases hmanager : s.manager with
  | none =>
      simp only [getOrCreateManager, hmanager, Option.ite_none_right_eq_some, Option.some.injEq] at h
      exact h.2.symm
  | some m =>
      rw [hmanager] at h
      cases h
      rfl

/-- A module that is refused leaves nothing open; an instance that is created has
the library of its path open. -/
theorem createModuleInstance_cases (hstale : ∀ dlHandle, reply.dlopen = some dlHandle → reply.stale = true →
      verifyFunctionInModule (fname s dlHandle reply) (s.strings options.modulePath) = true) :
    (∃ error, createModuleInstance s options reply = some (.error error, s.libraries)) ∨
      ∃ inst library, createModuleInstance s options reply =
          some (.ok inst, dlopen s.libraries inst.dlHandle reply.name) ∧
        inst.path = s.strings options.modulePath ∧ inst.state = .loaded ∧ inst.refCount = 0 ∧
        dlopen s.libraries inst.dlHandle reply.name inst.dlHandle = some library ∧ library.name = inst.path := by
  generalize hcreate : createModuleInstance s options reply = result
  rw [createModuleInstance] at hcreate
  cases hdl : reply.dlopen with
  | none =>
      rw [hdl] at hcreate
      exact .inl ⟨_, hcreate.symm⟩
  | some dlHandle =>
      simp only [hdl, dlclose_dlopen] at hcreate
      -- each guard of the code returns its error or goes on to the next
      obtain ⟨-, rfl⟩ | ⟨-, hcreate⟩ := ite_eq_iff.mp hcreate
      · exact .inl ⟨_, rfl⟩
      obtain ⟨-, rfl⟩ | ⟨-, hcreate⟩ := ite_eq_iff.mp hcreate
      · exact .inl ⟨_, rfl⟩
      obtain ⟨-, rfl⟩ | ⟨-, hcreate⟩ := ite_eq_iff.mp hcreate
      · exact .inl ⟨_, rfl⟩
      obtain ⟨-, rfl⟩ | ⟨-, hcreate⟩ := ite_eq_iff.mp hcreate
      · exact .inl ⟨_, rfl⟩
      obtain ⟨hfailed, hcreate⟩ | ⟨hverify, hcreate⟩ := ite_eq_iff.mp hcreate
      · obtain ⟨hgarbage, -⟩ | ⟨-, rfl⟩ := ite_eq_iff.mp hcreate
        · rw [hstale dlHandle hdl hgarbage] at hfailed
          cases hfailed
        · exact .inl ⟨_, rfl⟩
      obtain ⟨-, rfl⟩ | ⟨-, hcreate⟩ := ite_eq_iff.mp hcreate
      · exact .inl ⟨_, rfl⟩
      obtain ⟨-, rfl⟩ | ⟨-, hcreate⟩ := ite_eq_iff.mp hcreate
      · exact .inl ⟨_, rfl⟩
      obtain ⟨-, rfl⟩ | ⟨-, hcreate⟩ := ite_eq_iff.mp hcreate
      · exact .inl ⟨_, rfl⟩
      have hfname : fname s dlHandle reply = some (s.strings options.modulePath) := by
        simpa [verifyFunctionInModule] using hverify
      have hdladdr : reply.dladdr = true := by
        by_contra hno
        simp [fname, hno] at hfname
      simp only [fname, hdladdr, ↓reduceIte, Option.map_eq_some_iff] at hfname
      obtain ⟨library, hopen, hname⟩ := hfname
      exact .inr ⟨_, library, hcreate.symm, rfl, rfl, rfl, hopen, hname⟩

/-- A load fails and leaves everything as it was, or registers an instance with
the library of its path and returns the handle of this instance. -/
theorem load_cases (hok : RegistryOk s) (hkept : LoadKept s options reply) :
    (∃ error s', loadModuleImpl s options reply = some (.error error, s') ∧ Valid s'.ops s'.registry ∧
      LeftAsItWas s s') ∨
      ∃ inst library registered,
        loadModuleImpl s options reply = some (.ok s.handles.next,
          { s with
            manager := some registered
            instances := s.instances.alloc inst
            handles := s.handles.alloc ⟨inst.dlHandle, inst.moduleCtx, s.instances.next⟩
            libraries := dlopen s.libraries inst.dlHandle reply.name }) ∧
        Valid s.ops registered ∧ (∀ id, ¬Holds s.ops s.registry options.modulePath id) ∧
        (∀ key id, Holds s.ops registered key id ↔
          if s.ops.cmp options.modulePath key = 0 then id = s.instances.next else Holds s.ops s.registry key id) ∧
        inst.path = s.strings options.modulePath ∧ inst.state = .loaded ∧
        dlopen s.libraries inst.dlHandle reply.name inst.dlHandle = some library ∧ library.name = inst.path := by
  obtain ⟨hsmall, hstale, hroom⟩ := hkept
  have hvalid := hok.valid
  rw [loadModuleImpl]
  cases hmanager : getOrCreateManager s.manager reply.manager with
  | none => exact .inl ⟨_, s, rfl, hvalid, rfl, fun _ => rfl, rfl, rfl, rfl⟩
  | some registry =>
      obtain rfl := getOrCreateManager_registry hmanager
      obtain ⟨existing, hget, hexisting⟩ := mapGet_spec hvalid options.modulePath
      simp only [hget, bind, Option.bind_some]
      cases existing with
      | some id => exact .inl ⟨_, _, rfl, hvalid, rfl, fun _ => rfl, rfl, rfl, rfl⟩
      | none =>
          have habsent : ∀ id, ¬Holds s.ops s.registry options.modulePath id := (mapGet_eq_none hvalid).mp hget
          obtain ⟨error, hcreate⟩ | ⟨inst, library, hcreate, hpath, hstate, -, hopen, hname⟩ :=
            createModuleInstance_cases hstale
          · simp only [hcreate, Option.bind_some]
            exact .inl ⟨_, _, rfl, hvalid, rfl, fun _ => rfl, rfl, rfl, rfl⟩
          · simp only [hcreate, Option.bind_some]
            cases hhandle : reply.handle with
            | true =>
                obtain ⟨hnode, hgrant⟩ := hroom hhandle
                obtain ⟨registered, hset, hvalid', hholds⟩ :=
                  mapSet_stores hvalid options.modulePath s.instances.next hsmall hnode hgrant
                simp only [hset, Option.bind_some, ↓reduceIte]
                exact .inr ⟨inst, library, registered, rfl, hvalid', habsent, hholds, hpath, hstate, hopen, hname⟩
            | false =>
                obtain ⟨code, registered, removed, hset, hremove, hvalid', hholds⟩ :=
                  mapRemove_mapSet hvalid s.instances.next reply.registry hsmall habsent
                simp only [hset, hremove, Option.bind_some, Bool.false_eq_true, ↓reduceIte]
                refine .inl ⟨_, _, rfl, ?_⟩
                simp only [destroyModuleInstance, Heap.alloc_self, dlclose_dlopen]
                exact ⟨hvalid', rfl, mapGet_congr hvalid hvalid' hholds, Heap.alloc_free_cells _ _, rfl, rfl⟩

theorem RegistryOk.left (hok : RegistryOk s) (hvalid : Valid s'.ops s'.registry) (h : LeftAsItWas s s') :
    RegistryOk s' := by
  have hholds : ∀ key id, Holds s'.ops s'.registry key id ↔ Holds s.ops s.registry key id := by
    intro key id
    rw [← mapGet_eq_some hvalid, ← mapGet_eq_some hok.valid, h.lookups]
  refine ⟨hvalid, fun key id hkey => ?_, fun id inst hid => ?_, fun id inst hid => ?_, fun k handle hk => ?_,
    fun k k' handle handle' hk hk' => ?_⟩
  · rw [h.instances, h.strings]
    exact hok.entries key id ((hholds key id).mp hkey)
  · rw [h.instances] at hid
    simpa only [hholds] using hok.live id inst hid
  · rw [h.instances] at hid
    rw [h.libraries]
    exact hok.libraries id inst hid
  · rw [h.handles] at hk
    rw [h.instances]
    exact hok.handles k handle hk
  · rw [h.handles] at hk hk'
    exact hok.owned k k' handle handle' hk hk'

theorem RegistryOk.register {inst : Instance} {library : Library} {registered : MapBase Addr Nat} {name : Path}
    {addr : Addr} {moduleCtx : Nat} (hok : RegistryOk s) (hvalid : Valid s.ops registered)
    (hholds : ∀ key id, Holds s.ops registered key id ↔
      if s.ops.cmp addr key = 0 then id = s.instances.next else Holds s.ops s.registry key id)
    (hpath : inst.path = s.strings addr) (hstate : inst.state = .loaded)
    (habsent : ∀ id, ¬Holds s.ops s.registry addr id)
    (hopen : dlopen s.libraries inst.dlHandle name inst.dlHandle = some library) (hname : library.name = inst.path) :
    RegistryOk
      { s with
        manager := some registered
        instances := s.instances.alloc inst
        handles := s.handles.alloc ⟨inst.dlHandle, moduleCtx, s.instances.next⟩
        libraries := dlopen s.libraries inst.dlHandle name } := by
  refine ⟨hvalid, fun key id hkey => ?_, fun id found hid => ?_, fun id found hid => ?_, fun h handle hh => ?_,
    fun h h' handle handle' hh hh' hsame => ?_⟩
  · rcases (hholds key id).mp hkey |> ite_prop_iff_or.mp with ⟨hcmp, rfl⟩ | ⟨-, hold⟩
    · exact ⟨inst, Heap.alloc_self .., hpath.trans (ops_cmp.mp hcmp)⟩
    · obtain ⟨found, hfound, hpath'⟩ := hok.entries key id hold
      exact ⟨found, Heap.alloc_old hfound, hpath'⟩
  · rcases Heap.alloc_eq_some hid with ⟨rfl, rfl⟩ | hid
    · exact ⟨hstate, addr, (hholds addr _).mpr (by rw [if_pos (ops_cmp.mpr rfl)])⟩
    · obtain ⟨hloaded, key, hkey⟩ := hok.live id found hid
      have hne : s.ops.cmp addr key ≠ 0 := fun hcmp => habsent id (holds_congr (ops_cmp.mp hcmp).symm hkey)
      exact ⟨hloaded, key, (hholds key id).mpr (by rwa [if_neg hne])⟩
  · rcases Heap.alloc_eq_some hid with ⟨-, rfl⟩ | hid
    · exact ⟨library, hopen, hname⟩
    · obtain ⟨old, hold, hname'⟩ := hok.libraries id found hid
      obtain ⟨library', hkept, hsame⟩ := dlopen_keeps inst.dlHandle name hold
      exact ⟨library', hkept, hsame.trans hname'⟩
  · rcases Heap.alloc_eq_some hh with ⟨-, rfl⟩ | hh
    · exact ⟨inst, Heap.alloc_self .., rfl⟩
    · obtain ⟨found, hfound, hdl⟩ := hok.handles h handle hh
      exact ⟨found, Heap.alloc_old hfound, hdl⟩
  · have hfresh : ∀ k other, s.handles.cells k = some other → other.internalInstance ≠ s.instances.next := by
      intro k other hk
      obtain ⟨found, hfound, -⟩ := hok.handles k other hk
      exact (s.instances.lt_next hfound).ne
    rcases Heap.alloc_eq_some hh with ⟨rfl, rfl⟩ | hh
    · rcases Heap.alloc_eq_some hh' with ⟨rfl, -⟩ | hh'
      · rfl
      · exact absurd hsame.symm (hfresh h' handle' hh')
    · rcases Heap.alloc_eq_some hh' with ⟨-, rfl⟩ | hh'
      · exact absurd hsame (hfresh h handle hh)
      · exact hok.owned h h' handle handle' hh hh' hsame

theorem RegistryOk.setRefCount {id refCount : Nat} {inst : Instance} (hok : RegistryOk s)
    (hid : s.instances.cells id = some inst) : RegistryOk (s.setRefCount id inst refCount) := by
  have hcells : ∀ j found, (s.setRefCount id inst refCount).instances.cells j = some found →
      ∃ old, s.instances.cells j = some old ∧ old.dlHandle = found.dlHandle ∧ old.path = found.path ∧
        old.state = found.state := by
    intro j found hj
    by_cases hji : j = id
    · subst hji
      simp only [System.setRefCount, Heap.store_self hid] at hj
      cases hj
      exact ⟨inst, hid, rfl, rfl, rfl⟩
    · simp only [System.setRefCount, Heap.store_of_ne hji] at hj
      exact ⟨found, hj, rfl, rfl, rfl⟩
  have hkept : ∀ j old, s.instances.cells j = some old → ∃ found,
      (s.setRefCount id inst refCount).instances.cells j = some found ∧ found.dlHandle = old.dlHandle ∧
        found.path = old.path := by
    intro j old hj
    by_cases hji : j = id
    · subst hji
      rw [hid] at hj
      cases hj
      exact ⟨{ inst with refCount }, Heap.store_self hid, rfl, rfl⟩
    · exact ⟨old, (Heap.store_of_ne hji).trans hj, rfl, rfl⟩
  refine ⟨hok.valid, fun key j hkey => ?_, fun j found hj => ?_, fun j found hj => ?_, fun h handle hh => ?_,
    hok.owned⟩
  · obtain ⟨old, hj, hpath⟩ := hok.entries key j hkey
    obtain ⟨found, hfound, -, hsame⟩ := hkept j old hj
    exact ⟨found, hfound, hsame.trans hpath⟩
  · obtain ⟨old, hj, -, -, hstate⟩ := hcells j found hj
    rw [← hstate]
    exact hok.live j old hj
  · obtain ⟨old, hj, hdl, hpath, -⟩ := hcells j found hj
    rw [← hdl, ← hpath]
    exact hok.libraries j old hj
  · obtain ⟨old, hj, hdl⟩ := hok.handles h handle hh
    obtain ⟨found, hfound, hsame, -⟩ := hkept _ old hj
    exact ⟨found, hfound, hsame.trans hdl⟩

theorem RegistryOk.write {addr : Addr} {path : Path} (hok : RegistryOk s)
    (hkept : ∀ node ∈ contents s.registry, node.key ≠ addr) :
    RegistryOk { s with strings := Function.update s.strings addr path } := by
  have hstrings : ∀ node ∈ contents s.registry, Function.update s.strings addr path node.key = s.strings node.key :=
    fun node hnode => Function.update_of_ne (hkept node hnode) _ _
  refine ⟨?_, ?_, ?_, hok.libraries, hok.handles, hok.owned⟩
  · apply hok.valid.rekey
    · intro node hnode
      simp only [System.ops, KeyOps.through, hstrings node hnode]
    · intro a ha b hb
      simp only [System.ops, KeyOps.through, hstrings a ha, hstrings b hb]
  · rintro key id ⟨node, hnode, hcmp, rfl⟩
    obtain ⟨inst, hinst, hpath⟩ := hok.entries node.key node.value (Holds.of_mem hnode)
    refine ⟨inst, hinst, ?_⟩
    rw [hpath, ← hstrings node hnode]
    exact ops_cmp.mp hcmp
  · intro id inst hid
    obtain ⟨hstate, key, node, hnode, -, hvalue⟩ := hok.live id inst hid
    exact ⟨hstate, node.key, node, hnode, ops_cmp.mpr rfl, hvalue⟩

theorem findInstance_spec (hok : RegistryOk s) (moduleHandle : Nat) (fuel : Nat) {iter : MapIter}
    (hiter : Standing s.registry iter) (hfuel : (remaining s.registry iter).length < fuel)
    (hsub : ∀ node ∈ remaining s.registry iter, node ∈ contents s.registry) :
    ∃ r, findInstance s s.registry moduleHandle fuel iter = some r ∧
      (r = none → ∀ node ∈ remaining s.registry iter, ∀ inst, s.instances.cells node.value = some inst →
        inst.dlHandle ≠ moduleHandle) ∧
      ∀ key id, r = some (key, id) → Holds s.ops s.registry key id ∧
        ∃ inst, s.instances.cells id = some inst ∧ inst.dlHandle = moduleHandle := by
  induction fuel generalizing iter with
  | zero => omega
  | succ fuel ih =>
      rw [findInstance]
      obtain ⟨hnil, hnext⟩ | ⟨node, iter', hnext, hcons, hiter'⟩ := mapNext_advances hok.valid.length hiter
      · rw [hnext]
        refine ⟨none, rfl, fun _ => ?_, by simp⟩
        simp [hnil]
      · have hnode : node ∈ contents s.registry := hsub node (by simp [hcons])
        have hholds : Holds s.ops s.registry node.key node.value := Holds.of_mem hnode
        obtain ⟨inst, hinst, -⟩ := hok.entries node.key node.value hholds
        simp only [hnext, (mapGet_eq_some hok.valid).mpr hholds, hinst]
        by_cases hdl : inst.dlHandle = moduleHandle
        · rw [if_pos hdl]
          refine ⟨some (node.key, node.value), rfl, by simp, ?_⟩
          rintro key id ⟨⟩
          exact ⟨hholds, inst, hinst, hdl⟩
        · rw [if_neg hdl]
          rw [hcons, List.length_cons] at hfuel
          obtain ⟨r, hfind, hnone, hsome⟩ := ih hiter' (by omega) fun other hother => hsub other (by simp [hcons, hother])
          refine ⟨r, hfind, fun hr other hother found hfound => ?_, hsome⟩
          rw [hcons] at hother
          rcases List.mem_cons.mp hother with rfl | hother
          · rw [hinst] at hfound
            cases hfound
            exact hdl
          · exact hnone hr other hother found hfound

theorem findInstance_handle {h : Nat} {handle : Handle} (hok : RegistryOk s) (hh : s.handles.cells h = some handle) :
    ∃ key, findInstance s s.registry handle.moduleHandle (s.registry.buckets.flatten.length + 1) mapIter =
        some (some (key, handle.internalInstance)) ∧
      Holds s.ops s.registry key handle.internalInstance := by
  obtain ⟨inst, hinst, hdl⟩ := hok.handles h handle hh
  have hremaining : remaining s.registry mapIter = contents s.registry := remaining_mapIter
  obtain ⟨r, hfind, hnone, hsome⟩ := findInstance_spec hok handle.moduleHandle (s.registry.buckets.flatten.length + 1)
    standing_mapIter (by rw [hremaining]; exact Nat.lt_succ_self _) fun node hnode => by rwa [← hremaining]
  cases r with
  | none =>
      obtain ⟨-, key, node, hnode, -, hvalue⟩ := hok.live _ inst hinst
      rw [← hremaining] at hnode
      exact absurd hdl (hnone rfl node hnode inst (by rw [hvalue, hinst]))
  | some found =>
      obtain ⟨key, id⟩ := found
      obtain ⟨hholds, other, hother, hdl'⟩ := hsome key id rfl
      obtain rfl : id = handle.internalInstance := hok.dlHandle_unique hother hinst (hdl'.trans hdl.symm)
      exact ⟨key, hfind, hholds⟩

theorem getOrCreateManager_holds {key : Addr} {id : Nat} (h : Holds s.ops s.registry key id) (granted : Bool) :
    getOrCreateManager s.manager granted = some s.registry := by
  cases hmanager : s.manager with
  | none =>
      obtain ⟨node, hnode, -⟩ := h
      simp [System.registry, hmanager, contents, mapInit] at hnode
  | some registry => simp [getOrCreateManager, System.registry, hmanager]

theorem RegistryOk.unregister {h : Nat} {handle : Handle} {inst : Instance} {key : Addr} {removed : MapBase Addr Nat}
    (hok : RegistryOk s) (hh : s.handles.cells h = some handle)
    (hinst : s.instances.cells handle.internalInstance = some inst)
    (hkey : Holds s.ops s.registry key handle.internalInstance) (hvalid : Valid s.ops removed)
    (hholds : ∀ k id, Holds s.ops removed k id ↔ s.ops.cmp key k ≠ 0 ∧ Holds s.ops s.registry k id) :
    RegistryOk
      { s with
        manager := some removed
        instances := s.instances.free handle.internalInstance
        handles := s.handles.free h
        libraries := dlclose s.libraries inst.dlHandle } := by
  refine ⟨hvalid, fun k id hk => ?_, fun id found hid => ?_, fun id found hid => ?_, fun k other hk => ?_,
    fun k k' other other' hk hk' => ?_⟩
  · obtain ⟨hcmp, hold⟩ := (hholds k id).mp hk
    obtain ⟨found, hfound, hpath⟩ := hok.entries k id hold
    have hne : id ≠ handle.internalInstance := by
      rintro rfl
      obtain ⟨other, hother, hpath'⟩ := hok.entries key _ hkey
      rw [hfound] at hother
      cases hother
      exact hcmp (ops_cmp.mpr (hpath'.symm.trans hpath))
    exact ⟨found, (Heap.free_of_ne hne).trans hfound, hpath⟩
  · obtain ⟨hne, hid⟩ := Heap.free_eq_some hid
    obtain ⟨hstate, k, hk⟩ := hok.live id found hid
    refine ⟨hstate, k, (hholds k id).mpr ⟨fun hcmp => hne ?_, hk⟩⟩
    exact (holds_congr (ops_cmp.mp hcmp).symm hk).unique hok.valid hkey
  · obtain ⟨hne, hid⟩ := Heap.free_eq_some hid
    have hdl : found.dlHandle ≠ inst.dlHandle := fun hdl => hne (hok.dlHandle_unique hid hinst hdl)
    simp only [dlclose_of_ne hdl]
    exact hok.libraries id found hid
  · obtain ⟨hne, hk⟩ := Heap.free_eq_some hk
    obtain ⟨found, hfound, hdl⟩ := hok.handles k other hk
    have hother : other.internalInstance ≠ handle.internalInstance :=
      fun hsame => hne (hok.owned k h other handle hk hh hsame)
    exact ⟨found, (Heap.free_of_ne hother).trans hfound, hdl⟩
  · exact hok.owned k k' other other' (Heap.free_eq_some hk).2 (Heap.free_eq_some hk').2

/-- The unload of a handle is refused while somebody is inside, and otherwise
takes out its instance. -/
theorem unload_live {h : Nat} {handle : Handle} {inst : Instance} (hok : RegistryOk s)
    (hh : s.handles.cells h = some handle) (hinst : s.instances.cells handle.internalInstance = some inst)
    (granted : Bool) :
    if 0 < inst.refCount then
      unloadModuleImpl s (some h) granted =
        some (.error "Module still in use", { s with manager := some s.registry })
    else ∃ s', unloadModuleImpl s (some h) granted = some (.ok (), s') ∧ RegistryOk s' ∧
      s'.instances.cells handle.internalInstance = none ∧ s'.handles = s.handles.free h := by
  obtain ⟨key, hfind, hkey⟩ := findInstance_handle hok hh
  have hloaded := (hok.live _ inst hinst).1
  simp only [unloadModuleImpl, getOrCreateManager_holds hkey granted, hh, hfind, hinst, hloaded, bind, Option.bind_some,
    ne_eq, not_true_eq_false, ↓reduceIte]
  split_ifs with hinside
  · rfl
  · obtain ⟨removed, hremove, hvalid, -, hholds⟩ := mapRemove_spec hok.valid key
    simp only [hremove, Option.bind_some]
    refine ⟨_, rfl, ?_⟩
    simp only [destroyModuleInstance, hinst]
    exact ⟨hok.unregister hh hinst hkey hvalid hholds, Heap.free_self .., trivial⟩

theorem RegistryOk.unload {handle : Option Nat} {granted : Bool} {result : Except String Unit} (hok : RegistryOk s)
    (h : unloadModuleImpl s handle granted = some (result, s')) :
    RegistryOk s' ∧
      (s'.handles = s.handles ∨ ∃ k, handle = some k ∧ result = .ok () ∧ s'.handles = s.handles.free k) := by
  cases handle with
  | none =>
      cases h
      exact ⟨hok, .inl rfl⟩
  | some k =>
      cases hk : s.handles.cells k with
      | none =>
          -- a dangling handle is not looked at where there is no manager
          cases hmanager : getOrCreateManager s.manager granted with
          | none =>
              simp only [unloadModuleImpl, hmanager] at h
              cases h
              exact ⟨hok, .inl rfl⟩
          | some registry => simp [unloadModuleImpl, hmanager, hk] at h
      | some handle =>
          obtain ⟨inst, hinst, -⟩ := hok.handles k handle hk
          have hlive := unload_live hok hk hinst granted
          split_ifs at hlive
          · rw [hlive] at h
            cases h
            exact ⟨hok.left hok.valid ⟨rfl, fun _ => rfl, rfl, rfl, rfl⟩, .inl rfl⟩
          · obtain ⟨s'', hunload, hok', -, hhandles⟩ := hlive
            rw [hunload] at h
            cases h
            exact ⟨hok', .inr ⟨k, rfl, rfl, hhandles⟩⟩

def HandlesOk (trace : List Event) (s : System) : Prop :=
  ∀ h, Loaded h trace → ¬Unloaded h trace → ∃ handle, s.handles.cells h = some handle

theorem HandlesOk.append {trace events : List Event} (hhandles : HandlesOk trace s)
    (hsame : ∀ h handle, s.handles.cells h = some handle → ¬Unloaded h events → s'.handles.cells h = some handle)
    (hnew : ∀ h, Loaded h events → ∃ handle, s'.handles.cells h = some handle) : HandlesOk (trace ++ events) s' := by
  rintro h ⟨options, reply, hmem⟩ hunloaded
  rcases List.mem_append.mp hmem with hold | hfresh
  · have hbefore : ¬Unloaded h trace := fun ⟨granted, hg⟩ => hunloaded ⟨granted, List.mem_append_left _ hg⟩
    have hafter : ¬Unloaded h events := fun ⟨granted, hg⟩ => hunloaded ⟨granted, List.mem_append_right _ hg⟩
    obtain ⟨handle, hh⟩ := hhandles h ⟨options, reply, hold⟩ hbefore
    exact ⟨handle, hsame h handle hh hafter⟩
  · exact hnew h ⟨options, reply, hfresh⟩

theorem RegistryOk.step {trace events : List Event} (hok : RegistryOk s) (hhandles : HandlesOk trace s)
    (hs : guarded Kept Step s events s') : RegistryOk s' ∧ HandlesOk (trace ++ events) s' := by
  obtain ⟨hstep, hkept⟩ := hs
  cases hstep with
  | load _ options reply result hload =>
      obtain ⟨error, s'', hload', hvalid, hleft⟩ | ⟨inst, library, registered, hload', hvalid, habsent, hholds, hpath,
        hstate, hopen, hname⟩ := load_cases hok (hkept _ (List.mem_singleton_self _))
      · rw [hload'] at hload
        cases hload
        exact ⟨hok.left hvalid hleft,
          hhandles.append (fun h handle hh _ => by rwa [hleft.handles]) fun h hnew => by simp [Loaded] at hnew⟩
      · rw [hload'] at hload
        cases hload
        refine ⟨hok.register hvalid hholds hpath hstate habsent hopen hname,
          hhandles.append (fun h handle hh _ => Heap.alloc_old hh) ?_⟩
        rintro h ⟨options', reply', hmem⟩
        simp only [List.mem_singleton, Event.load.injEq, Except.ok.injEq] at hmem
        obtain ⟨-, -, rfl⟩ := hmem
        exact ⟨_, Heap.alloc_self ..⟩
  | unload _ handle granted result hunload =>
      obtain ⟨hok', hsame | ⟨k, rfl, rfl, hfreed⟩⟩ := hok.unload hunload
      · exact ⟨hok',
          hhandles.append (fun h handle hh _ => by rwa [hsame]) fun h hnew => by simp [Loaded] at hnew⟩
      · refine ⟨hok', hhandles.append (fun h handle hh hnot => ?_) fun h hnew => by simp [Loaded] at hnew⟩
        have hne : h ≠ k := by
          rintro rfl
          exact hnot ⟨granted, List.mem_singleton_self _⟩
        rw [hfreed, Heap.free_of_ne hne, hh]
  | enter h handle inst hhandle hinst | leave h handle inst hhandle hinst =>
      exact ⟨hok.setRefCount hinst, hhandles.append (fun _ _ hh _ => hh) fun k hnew => by simp [Loaded] at hnew⟩
  | write addr path =>
      exact ⟨hok.write (hkept _ (List.mem_singleton_self _)),
        hhandles.append (fun _ _ hh _ => hh) fun k hnew => by simp [Loaded] at hnew⟩

theorem RegistryOk.new (strings : Addr → Path) (libraries : Libraries) : RegistryOk (System.new strings libraries) := by
  refine ⟨represents_init.valid, ?_, ?_, ?_, ?_, ?_⟩
  · intro key id hkey
    simp [Holds, contents, System.new, System.registry, mapInit] at hkey
  all_goals simp [System.new]

theorem run_ok {strings : Addr → Path} {libraries : Libraries} {trace : List Event}
    (h : Run (guarded Kept Step) (System.new strings libraries) trace s) : RegistryOk s ∧ HandlesOk trace s := by
  apply h.invariant (P := fun trace s => RegistryOk s ∧ HandlesOk trace s)
  · refine ⟨.new strings libraries, ?_⟩
    rintro k ⟨options, reply, hmem⟩
    exact absurd hmem List.not_mem_nil
  · exact fun trace s events s' hs hstep => hs.1.step hs.2 hstep

theorem RegistryOk.registered {id : Nat} {inst : Instance} (hok : RegistryOk s)
    (hid : s.instances.cells id = some inst) : Registered s id := by
  obtain ⟨-, key, hkey⟩ := hok.live id inst hid
  exact ⟨key, (mapGet_eq_some hok.valid).mpr hkey⟩

end Calls

section Runs

variable {strings : Addr → Path} {libraries : Libraries} {trace : List Event} {s : System}

theorem consistent_of_run (h : Run (guarded Kept Step) (System.new strings libraries) trace s) : Consistent trace s := by
  obtain ⟨hok, hhandles⟩ := run_ok h
  refine ⟨fun k hloaded hunloaded => ?_, fun k handle inst granted hk hinst hidle => ?_,
    fun id id' inst inst' hid hid' hpath => hok.path_unique hid hid' hpath⟩
  · obtain ⟨handle, hk⟩ := hhandles k hloaded hunloaded
    obtain ⟨inst, hinst, hdl⟩ := hok.handles k handle hk
    refine ⟨handle, inst, hk, hinst, hdl, hok.registered hinst, fun id other _ hother hdl' => ?_⟩
    exact hok.dlHandle_unique hother hinst (hdl'.trans hdl.symm)
  · have hlive := unload_live hok hk hinst granted
    rw [if_neg (by omega)] at hlive
    obtain ⟨s', hunload, -, hgone, -⟩ := hlive
    exact ⟨s', hunload, hgone⟩

/-- In every run in which the registry takes each module that is loaded and its
strings stay as they are, handles, instances and registry agree, and a load that
fails leaves them as they were. -/
theorem registry_consistent (h : Run (guarded Kept Step) (System.new strings libraries) trace s) :
    Consistent trace s ∧
      ∀ options reply, LoadKept s options reply →
        ∃ result s', loadModuleImpl s options reply = some (result, s') ∧
          ∀ error, result = .error error → LeftAsItWas s s' := by
  refine ⟨consistent_of_run h, fun options reply hkept => ?_⟩
  obtain ⟨error, s', hload, -, hleft⟩ | ⟨inst, library, registered, hload, -⟩ := load_cases (run_ok h).1 hkept
  · exact ⟨_, s', hload, fun _ _ => hleft⟩
  · exact ⟨_, _, hload, by simp⟩

def unlessRegistry (registry : Grants) : LoadReply :=
  ⟨true, some 7, none, [47], true, 1, true, true, false, true, true, true, none, 8, registry, true⟩

def oneString : Addr → Path := fun _ => [47]

/-- Strings that are all different, and the answers to a load of a library by the
name of one of them. -/
def manyStrings : Addr → Path := fun addr => [47, UInt8.ofNat addr]

def served (dlHandle : Nat) (name : Path) : LoadReply :=
  ⟨true, some dlHandle, none, name, true, 1, true, true, false, true, true, true, none, 8, ⟨true, true⟩, true⟩

def twoLoads : List Event :=
  [.load ⟨0, false⟩ (served 7 [47, 0]) (.ok 0), .load ⟨1, false⟩ (served 9 [47, 1]) (.ok 1), .unload (some 0) true (.ok ())]

/-- Two modules are loaded, and the first one is unloaded. -/
theorem registry_consistent_two : ∃ s, Run (guarded Kept Step) (System.new manyStrings fun _ => none) twoLoads s ∧
    Consistent twoLoads s ∧ Unloaded 0 twoLoads ∧
    ∃ handle, s.handles.cells 1 = some handle ∧ Registered s handle.internalInstance := by
  have hload (s : System) (addr : Addr) (dlHandle : Nat) (result : Except String Nat)
      (hsmall : s.registry.nnodes.toNat < 2 ^ 30) :
      Kept s [.load ⟨addr, false⟩ (served dlHandle (manyStrings addr)) result] := by
    intro e he
    obtain rfl := List.mem_singleton.mp he
    exact ⟨hsmall, by simp [served], fun _ => ⟨rfl, .inr rfl⟩⟩
  have r₁ : Run (guarded Kept Step) (System.new manyStrings fun _ => none) _ _ :=
    .next .start ⟨.load _ _ ⟨0, false⟩ (served 7 [47, 0]) _ rfl, hload _ 0 7 _ (by decide)⟩
  have r₂ := r₁.next ⟨.load _ _ ⟨1, false⟩ (served 9 [47, 1]) _ rfl, hload _ 1 9 _ (by decide)⟩
  have r₃ := r₂.next ⟨.unload _ _ (some 0) true _ rfl, fun e he => List.mem_singleton.mp he ▸ trivial⟩
  have hconsistent : Consistent twoLoads _ := (registry_consistent r₃).1
  have hloaded : Loaded 1 twoLoads := ⟨_, _, .tail _ (.head _)⟩
  obtain ⟨handle, -, hhandle, -, -, hregistered, -⟩ :=
    hconsistent.registered 1 hloaded (by simp [Unloaded, twoLoads])
  exact ⟨_, r₃, hconsistent, ⟨true, .tail _ (.tail _ (.head _))⟩, handle, hhandle, hregistered⟩

/-- The caller writes another path over the string it has loaded a module with. -/
example : ((loadModuleImpl (System.new oneString fun _ => none) ⟨0, false⟩ (unlessRegistry ⟨true, true⟩)).bind fun r =>
    unloadModuleImpl { r.2 with strings := fun _ => [48] } (some 0) true).map (·.1) =
      some (.error "Module not found in registry") := rfl

/-- The registry has no memory for the node of the module, and the load returns a
handle all the same. -/
theorem unregistered_handle : ¬∀ (strings : Addr → Path) (libraries : Libraries) (trace : List Event) (s : System),
    Run Step (System.new strings libraries) trace s → Consistent trace s := by
  intro hconsistent
  have hrun := Run.start.next (Step.load (System.new oneString fun _ => none) _ ⟨0, false⟩
    (unlessRegistry ⟨false, true⟩) _ rfl)
  have hloaded : Loaded 0 [.load ⟨0, false⟩ (unlessRegistry ⟨false, true⟩) (.ok 0)] :=
    ⟨_, _, List.mem_singleton_self _⟩
  have hunloaded : ¬Unloaded 0 [.load ⟨0, false⟩ (unlessRegistry ⟨false, true⟩) (.ok 0)] := by
    simp [Unloaded]
  obtain ⟨handle, inst, -, -, -, ⟨key, hkey⟩, -⟩ :=
    (hconsistent _ _ _ _ hrun).registered 0 hloaded hunloaded
  cases hkey

end Runs

end Ak24.RegistryConsistency
