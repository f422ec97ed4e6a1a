import Ak24.Transition

namespace Ak24.ModuleUnload

open Transition

inductive ModuleState
  | loading
  | loaded
  | unloading
  | failed
  deriving DecidableEq, Repr

inductive Slot
  | getFunction
  | getFunctionSignature
  deriving DecidableEq, Repr

/-- What the threads share of one module. `deinit` says whether the vtable has
`ak_module_deinit` and there is a context to call it on. -/
structure Module where
  vtable : Slot → Bool
  deinit : Bool
  registered : Bool
  state : ModuleState
  refCount : Nat
  closed : Bool
  instanceFreed : Bool
  handleFreed : Bool

/-- Where a thread is. In a get call it has read `internal_instance` from the
handle (`begun`), found the module loaded (`checked`), counted itself
(`counted`), called into the module (`called`). An unload holds the registry's
mutex from `found` to `remove`. -/
inductive Phase
  | idle
  | begun (slot : Slot)
  | checked (slot : Slot)
  | counted (slot : Slot)
  | called
  | found
  | count
  | remove
  | destroy
  | spin
  | callback
  | deinit
  | close
  | freeMutex
  | freePath
  | freeInstance
  | freeHandle
  deriving DecidableEq, Repr

/-- `accessed` is an access to a field of the instance, by any thread. -/
inductive Event
  | began (slot : Slot)
  | accessed
  | invoked (slot : Slot)
  | deinited
  | drained
  | closed
  | freed
  deriving DecidableEq, Repr

structure System (n : Nat) where
  module : Module
  registryMutex : Option (Fin n)
  threads : Fin n → Phase

def handleGet (m : Module) : Phase → Option (Phase × Module × List Event)
  | .begun slot => some (if m.state = .loaded then .checked slot else .idle, m, [.accessed])
  | .checked slot =>
    if m.vtable slot then some (.counted slot, { m with refCount := m.refCount + 1 }, [.accessed])
    else some (.idle, m, [])
  | .counted slot => some (.called, m, [.invoked slot])
  | .called => some (.idle, { m with refCount := m.refCount - 1 }, [.accessed])
  | _ => none

/-- One step of `unload_module_impl` inside the registry's critical section; the
flag says whether the step leaves it. -/
def unloadModuleImpl (m : Module) : Phase → Option (Phase × Module × Bool × List Event)
  | .found => if m.state = .loaded then some (.count, m, false, [.accessed]) else some (.idle, m, true, [.accessed])
  | .count => if 0 < m.refCount then some (.idle, m, true, [.accessed]) else some (.remove, m, false, [.accessed])
  | .remove => some (.destroy, { m with registered := false }, true, [])
  | _ => none

/-- One step of `destroy_module_instance`, and the free of the handle after it.
The fields `unload_callback`, `dl_handle`, `access_mutex` and `path` are only read. -/
def destroyModuleInstance (m : Module) : Phase → Option (Phase × Module × List Event)
  | .destroy => some (.spin, { m with state := .unloading }, [.accessed])
  | .spin => if 0 < m.refCount then some (.spin, m, [.accessed]) else some (.callback, m, [.accessed, .drained])
  | .callback => some (.deinit, m, [.accessed])
  | .deinit => some (.close, m, if m.deinit then [.accessed, .deinited] else [.accessed])
  | .close => some (.freeMutex, { m with closed := true }, [.accessed, .closed])
  | .freeMutex => some (.freePath, m, [.accessed])
  | .freePath => some (.freeInstance, m, [.accessed])
  | .freeInstance => some (.freeHandle, { m with instanceFreed := true }, [.freed])
  | .freeHandle => some (.idle, { m with handleFreed := true }, [])
  | _ => none

variable {n : Nat}

def System.move (s : System n) (i : Fin n) (p : Phase) (module : Module) : System n :=
  { s with module, threads := Function.update s.threads i p }

/-- Every order of the threads' steps. A call begins on a handle that is not
freed; an unload looks the module up, by its `dl_handle`, with the registry's
mutex taken. -/
inductive Step : System n → List Event → System n → Prop
  | beginGet (s : System n) (i : Fin n) (slot : Slot) (hidle : s.threads i = .idle)
    (hvalid : s.module.handleFreed = false) : Step s [.began slot] (s.move i (.begun slot) s.module)
  | get (s : System n) (i : Fin n) (p : Phase) (module : Module) (events : List Event)
    (h : handleGet s.module (s.threads i) = some (p, module, events)) :
    Step s events (s.move i p module)
  | beginUnload (s : System n) (i : Fin n) (hidle : s.threads i = .idle) (hvalid : s.module.handleFreed = false)
    (hfree : s.registryMutex = none) (hfound : s.module.registered = true) :
    Step s [.accessed] { s.move i .found s.module with registryMutex := some i }
  | missing (s : System n) (i : Fin n) (hidle : s.threads i = .idle) (hvalid : s.module.handleFreed = false)
    (hfree : s.registryMutex = none) (hmissing : s.module.registered = false) : Step s [] s
  | unload (s : System n) (i : Fin n) (p : Phase) (module : Module) (leaves : Bool) (events : List Event)
    (h : unloadModuleImpl s.module (s.threads i) = some (p, module, leaves, events)) :
    Step s events { s.move i p module with registryMutex := if leaves then none else s.registryMutex }
  | destroy (s : System n) (i : Fin n) (p : Phase) (module : Module) (events : List Event)
    (h : destroyModuleInstance s.module (s.threads i) = some (p, module, events)) :
    Step s events (s.move i p module)

def System.start (n : Nat) (vtable : Slot → Bool) (deinit : Bool) : System n :=
  ⟨⟨vtable, deinit, true, .loaded, 0, false, false, false⟩, none, fun _ => .idle⟩

def Calls (e : Event) : Prop := e = .deinited ∨ ∃ slot, e = .invoked slot

def Ends (e : Event) : Prop := e = .closed ∨ e = .freed

/-- No function of the module is called once the library is closed or the
instance freed, and no field of the instance is accessed once it is freed. -/
def UnusedAfterUnload (trace : List Event) : Prop :=
  NoUseAfter Ends Calls trace ∧ NoUseAfter (· = Event.freed) (· = Event.accessed) trace

/-- The destroyer leaves its wait loop when no get call stands between finding
the module loaded and counting itself; it frees the instance when none stands
before its look at the state, and none begins afterwards. -/
structure WindowsShut (s : System n) (events : List Event) : Prop where
  drained : .drained ∈ events → ∀ i slot, s.threads i ≠ .checked slot
  freed : .freed ∈ events → ∀ i slot, s.threads i ≠ .begun slot
  began : ∀ slot, .began slot ∈ events → s.module.instanceFreed = false

def inside : Phase → Nat
  | .counted _ | .called => 1
  | _ => 0

def engaged : Phase → Bool
  | .checked _ | .counted _ | .called => true
  | _ => false

def isBegun : Phase → Bool
  | .begun _ => true
  | _ => false

def locked : Phase → Bool
  | .found | .count | .remove => true
  | _ => false

def destroying : Phase → Bool
  | .destroy | .spin | .callback | .deinit | .close | .freeMutex | .freePath | .freeInstance => true
  | _ => false

def pastStore : Phase → Bool
  | .spin | .callback | .deinit | .close | .freeMutex | .freePath | .freeInstance | .freeHandle => true
  | _ => false

def pastSpin : Phase → Bool
  | .callback | .deinit | .close | .freeMutex | .freePath | .freeInstance | .freeHandle => true
  | _ => false

def pastClose : Phase → Bool
  | .freeMutex | .freePath | .freeInstance | .freeHandle => true
  | _ => false

structure PhaseOk (m : Module) (mutex : Option (Fin n)) (i : Fin n) (p : Phase) : Prop where
  stored : pastStore p → m.state ≠ .loaded
  closing : pastClose p → m.closed = true
  held : locked p → mutex = some i ∧ m.registered = true
  removed : destroying p → m.registered = false
  closed : m.closed = true → engaged p = false ∧ (destroying p → pastClose p)
  freed : m.instanceFreed = true → destroying p = false ∧ isBegun p = false

/-- The count is that of the calls inside, there is one destroyer, and once it is
past its wait loop no get call is past its look at the state. -/
structure UnloadOk (m : Module) (mutex : Option (Fin n)) (threads : Fin n → Phase) : Prop where
  counted : m.refCount = tally inside threads
  shut : m.closed = true → m.state ≠ .loaded ∧ m.registered = false
  gone : m.instanceFreed = true → m.closed = true ∧ m.registered = false
  phases : ∀ i, PhaseOk m mutex i (threads i)
  drained : ∀ i j, pastSpin (threads i) → engaged (threads j) = false
  single : ∀ i j, i ≠ j → destroying (threads i) → destroying (threads j) = false

section Steps

variable {m m' : Module} {mutex mutex' : Option (Fin n)} {threads : Fin n → Phase} {i : Fin n} {p q : Phase}
  {events : List Event}

theorem engaged_of_pastSpin (h : pastSpin p) : engaged p = false := by
  cases p <;> first | rfl | cases h

theorem pastStore_of_pastSpin (h : pastSpin p) : pastStore p := by
  cases p <;> first | rfl | cases h

theorem pastSpin_of_pastClose (h : pastClose p) : pastSpin p := by
  cases p <;> first | rfl | cases h

theorem free_of_pastStore (h : pastStore p) :
    inside p = 0 ∧ engaged p = false ∧ isBegun p = false ∧ locked p = false := by
  cases p <;> first | exact ⟨rfl, rfl, rfl, rfl⟩ | cases h

theorem free_of_destroying (h : destroying p) : inside p = 0 := by
  cases p <;> first | rfl | cases h

theorem PhaseOk.keep {j : Fin n} (h : PhaseOk m mutex j p) (hstate : m.state ≠ .loaded → m'.state ≠ .loaded)
    (hclosed : m'.closed = m.closed) (hregistered : m'.registered = m.registered)
    (hfreed : m'.instanceFreed = m.instanceFreed) (hmutex : locked p → mutex' = some j) :
    PhaseOk m' mutex' j p := by
  refine ⟨fun hp => hstate (h.stored hp), ?_, fun hp => ⟨hmutex hp, ?_⟩, ?_, ?_, ?_⟩
  · rw [hclosed]
    exact h.closing
  · rw [hregistered]
    exact (h.held hp).2
  · rw [hregistered]
    exact h.removed
  · rw [hclosed]
    exact h.closed
  · rw [hfreed]
    exact h.freed

theorem PhaseOk.unregister {j : Fin n} (h : PhaseOk m mutex j p) (hlocked : locked p = false) :
    PhaseOk { m with registered := false } mutex' j p :=
  ⟨h.stored, h.closing, by simp [hlocked], fun _ => rfl, h.closed, h.freed⟩

theorem UnloadOk.move (h : UnloadOk m mutex threads)
    (hcount : m'.refCount + inside (threads i) = m.refCount + inside p)
    (hshut : m'.closed = true → m'.state ≠ .loaded ∧ m'.registered = false)
    (hgone : m'.instanceFreed = true → m'.closed = true ∧ m'.registered = false)
    (hp : PhaseOk m' mutex' i p) (hothers : ∀ j ≠ i, PhaseOk m' mutex' j (threads j))
    (hspin : pastSpin p → ∀ j ≠ i, engaged (threads j) = false)
    (hengaged : ∀ j ≠ i, pastSpin (threads j) → engaged p = false)
    (halone : destroying p → ∀ j ≠ i, destroying (threads j) = false) :
    UnloadOk m' mutex' (Function.update threads i p) := by
  refine ⟨?_, hshut, hgone, ?_, ?_, fun j k hjk hj => ?_⟩
  · have htally := tally_update inside threads i p
    have hcounted := h.counted
    omega
  · rw [Function.forall_update_iff threads fun j p => PhaseOk m' mutex' j p]
    exact ⟨hp, hothers⟩
  · exact pairs_update (R := fun p q => pastSpin p → engaged q = false) h.drained engaged_of_pastSpin
      (fun j hj hpast => hspin hpast j hj) hengaged
  · by_cases hji : j = i
    · subst j
      rw [Function.update_self] at hj
      rw [Function.update_of_ne (Ne.symm hjk)]
      exact halone hj k (Ne.symm hjk)
    · rw [Function.update_of_ne hji] at hj
      by_cases hki : k = i
      · subst k
        rw [Function.update_self]
        by_contra hp
        rw [halone (by simpa using hp) j hji] at hj
        cases hj
      · rw [Function.update_of_ne hki]
        exact h.single j k hjk hj

theorem UnloadOk.rest (h : UnloadOk m mutex threads) {refCount : Nat}
    (hcount : refCount + inside (threads i) = m.refCount) (hinside : inside p = 0) (hpast : pastStore p = false)
    (hdestroying : destroying p = false) (hengaged : engaged p = false)
    (hbegun : m.instanceFreed = true → isBegun p = false)
    (hlocked : locked p → mutex' = some i ∧ m.registered = true)
    (hmutex : ∀ j ≠ i, locked (threads j) → mutex' = some j) :
    UnloadOk { m with refCount } mutex' (Function.update threads i p) := by
  have hspin : pastSpin p = false := by
    by_contra hne
    rw [pastStore_of_pastSpin (by simpa using hne)] at hpast
    cases hpast
  have hclose : pastClose p = false := by
    by_contra hne
    rw [pastSpin_of_pastClose (by simpa using hne)] at hspin
    cases hspin
  apply h.move
  · rw [hinside]
    exact hcount
  · exact h.shut
  · exact h.gone
  · refine ⟨?_, ?_, hlocked, ?_, fun _ => ⟨hengaged, ?_⟩, fun hm => ⟨hdestroying, hbegun hm⟩⟩
    · simp [hpast]
    · simp [hclose]
    · simp [hdestroying]
    · simp [hdestroying]
  · exact fun j hj => (h.phases j).keep id rfl rfl rfl (hmutex j hj)
  · simp [hspin]
  · exact fun _ _ _ => hengaged
  · simp [hdestroying]

/-- While a call is past its look at the state, no destroyer is past its wait
loop and the library is open. -/
theorem UnloadOk.engage (h : UnloadOk m mutex threads) (hbusy : engaged (threads i) = true) {refCount : Nat}
    (hcount : refCount + inside (threads i) = m.refCount + inside p) (hp : engaged p = true) :
    UnloadOk { m with refCount } mutex (Function.update threads i p) := by
  have hopen : m.closed ≠ true := by
    intro hm
    rw [((h.phases i).closed hm).1] at hbusy
    cases hbusy
  have hphase : pastStore p = false ∧ pastSpin p = false ∧ pastClose p = false ∧ locked p = false ∧
      destroying p = false ∧ isBegun p = false := by
    cases p <;> first | exact ⟨rfl, rfl, rfl, rfl, rfl, rfl⟩ | cases hp
  obtain ⟨hstore, hspin, hclose, hlocked, hdestroying, hbegun⟩ := hphase
  apply h.move hcount
  · exact h.shut
  · exact h.gone
  · refine ⟨?_, ?_, ?_, ?_, fun hm => absurd hm hopen, fun hm => absurd (h.gone hm).1 hopen⟩
    · simp [hstore]
    · simp [hclose]
    · simp [hlocked]
    · simp [hdestroying]
  · exact fun j _ => (h.phases j).keep id rfl rfl rfl fun hj => ((h.phases j).held hj).1
  · simp [hspin]
  · intro j _ hj
    rw [h.drained j i hj] at hbusy
    cases hbusy
  · simp [hdestroying]

theorem UnloadOk.others (h : UnloadOk m mutex threads) : ∀ j ≠ i, locked (threads j) → mutex = some j :=
  fun j _ hj => ((h.phases j).held hj).1

theorem UnloadOk.get (h : UnloadOk m mutex threads) (hg : handleGet m (threads i) = some (p, m', events)) :
    UnloadOk m' mutex (Function.update threads i p) := by
  cases hi : threads i with
  | begun slot =>
      simp only [hi, handleGet] at hg
      cases hg
      split_ifs with hloaded
      · have hopen : m.closed ≠ true := fun hm => (h.shut hm).1 hloaded
        apply h.move
        · simp [hi, inside]
        · exact h.shut
        · exact h.gone
        · exact ⟨nofun, nofun, nofun, nofun, fun hm => absurd hm hopen, fun hm => absurd (h.gone hm).1 hopen⟩
        · exact fun j _ => h.phases j
        · exact nofun
        · exact fun j _ hj => absurd hloaded ((h.phases j).stored (pastStore_of_pastSpin hj))
        · exact nofun
      · exact h.rest (by simp [hi, inside]) rfl rfl rfl rfl (fun _ => rfl) nofun h.others
  | checked slot =>
      simp only [hi, handleGet] at hg
      split_ifs at hg
      · cases hg
        exact h.engage (by rw [hi]; rfl) (by simp [hi, inside]) rfl
      · cases hg
        exact h.rest (by simp [hi, inside]) rfl rfl rfl rfl (fun _ => rfl) nofun h.others
  | counted slot =>
      simp only [hi, handleGet] at hg
      cases hg
      exact h.engage (by rw [hi]; rfl) (by simp [hi, inside]) rfl
  | called =>
      simp only [hi, handleGet] at hg
      cases hg
      have hcounted := h.counted
      have hle := le_tally inside threads i
      have hcount : m.refCount - 1 + inside (threads i) = m.refCount := by
        simp only [hi, inside] at hle ⊢
        omega
      exact h.rest hcount rfl rfl rfl rfl (fun _ => rfl) nofun h.others
  | idle | found | count | remove | destroy | spin | callback | deinit | close | freeMutex | freePath | freeInstance
  | freeHandle => simp [hi, handleGet] at hg

theorem UnloadOk.locked_alone (h : UnloadOk m mutex threads) (hi : locked (threads i)) :
    m.registered = true ∧ (∀ j, destroying (threads j) = false) ∧ ∀ j ≠ i, locked (threads j) → False := by
  obtain ⟨hmutex, hregistered⟩ := (h.phases i).held hi
  refine ⟨hregistered, fun j => ?_, fun j hj hlocked => hj ?_⟩
  · by_contra hne
    rw [(h.phases j).removed (by simpa using hne)] at hregistered
    cases hregistered
  · exact Option.some.inj (((h.phases j).held hlocked).1.symm.trans hmutex)

theorem UnloadOk.unload {leaves : Bool} (h : UnloadOk m mutex threads)
    (hu : unloadModuleImpl m (threads i) = some (p, m', leaves, events)) :
    UnloadOk m' (if leaves then none else mutex) (Function.update threads i p) := by
  cases hi : threads i with
  | found | count =>
      have hlocked : locked (threads i) := by rw [hi]; rfl
      obtain ⟨hregistered, -, halone⟩ := h.locked_alone hlocked
      simp only [hi, unloadModuleImpl] at hu
      split_ifs at hu
      all_goals
        cases hu
        refine h.rest (by simp [hi, inside]) rfl rfl rfl rfl (fun _ => rfl) (fun hp => ?_)
          fun j hj hl => (halone j hj hl).elim
        first | exact (h.phases i).held hlocked | cases hp
  | remove =>
      obtain ⟨hregistered, hnone, halone⟩ := h.locked_alone (i := i) (by rw [hi]; rfl)
      have hopen : m.closed ≠ true := by
        intro hm
        rw [(h.shut hm).2] at hregistered
        cases hregistered
      simp only [hi, unloadModuleImpl] at hu
      cases hu
      apply h.move
      · simp [hi, inside]
      · exact fun hm => ⟨(h.shut hm).1, rfl⟩
      · exact fun hm => ⟨(h.gone hm).1, rfl⟩
      · exact ⟨nofun, nofun, nofun, fun _ => rfl, fun hm => absurd hm hopen, fun hm => absurd (h.gone hm).1 hopen⟩
      · intro j hj
        refine (h.phases j).unregister ?_
        by_contra hne
        exact halone j hj (by simpa using hne)
      · exact nofun
      · exact fun _ _ _ => rfl
      · exact fun _ j _ => hnone j
  | idle | begun | checked | counted | called | destroy | spin | callback | deinit | close | freeMutex | freePath
  | freeInstance | freeHandle => simp [hi, unloadModuleImpl] at hu

theorem UnloadOk.advance (h : UnloadOk m mutex threads) (hi : destroying (threads i)) (hp : pastStore p)
    (hcount : m'.refCount = m.refCount) (hregistered : m'.registered = m.registered) (hstate : m'.state ≠ .loaded)
    (hclosed : m'.closed = true ↔ pastClose p) (hkeep : m.closed = true → m'.closed = true)
    (hquiet : pastSpin p → ∀ j, engaged (threads j) = false)
    (hfreed : m'.instanceFreed = true → p = .freeHandle ∧ ∀ j, isBegun (threads j) = false) :
    UnloadOk m' mutex (Function.update threads i p) := by
  obtain ⟨hinside, hengaged, hbegun, hlocked⟩ := free_of_pastStore hp
  have hremoved : m'.registered = false := hregistered.trans ((h.phases i).removed hi)
  have halone : ∀ j ≠ i, destroying (threads j) = false := fun j hj => h.single i j (Ne.symm hj) hi
  apply h.move
  · rw [hinside, hcount, free_of_destroying hi]
  · exact fun _ => ⟨hstate, hremoved⟩
  · exact fun hm => ⟨hclosed.mpr (by rw [(hfreed hm).1]; rfl), hremoved⟩
  · refine ⟨fun _ => hstate, hclosed.mpr, by simp [hlocked], fun _ => hremoved, fun hm => ⟨hengaged, fun _ => ?_⟩,
      fun hm => ⟨?_, hbegun⟩⟩
    · exact hclosed.mp hm
    · rw [(hfreed hm).1]
      rfl
  · intro j hj
    have hold := h.phases j
    refine ⟨fun _ => hstate, fun hpast => hkeep (hold.closing hpast), fun hl => ⟨(hold.held hl).1, ?_⟩,
      by simp [halone j hj], fun hm => ⟨?_, by simp [halone j hj]⟩, fun hm => ⟨halone j hj, (hfreed hm).2 j⟩⟩
    · rw [hregistered]
      exact (hold.held hl).2
    · exact hquiet (pastSpin_of_pastClose (hclosed.mp hm)) j
  · exact fun hspin j _ => hquiet hspin j
  · exact fun _ _ _ => hengaged
  · exact fun _ => halone

theorem UnloadOk.quiet (h : UnloadOk m mutex threads) (hzero : m.refCount = 0)
    (hchecked : ∀ j slot, threads j ≠ .checked slot) (j : Fin n) : engaged (threads j) = false := by
  have hle := le_tally inside threads j
  rw [← h.counted, hzero] at hle
  cases hj : threads j with
  | checked slot => exact absurd hj (hchecked j slot)
  | counted slot | called =>
      rw [hj, inside] at hle
      cases hle
  | idle | begun | found | count | remove | destroy | spin | callback | deinit | close | freeMutex | freePath
  | freeInstance | freeHandle => rfl

theorem UnloadOk.stage (h : UnloadOk m mutex threads) (hi : destroying (threads i)) :
    (m.closed = true ↔ pastClose (threads i)) ∧ m.instanceFreed ≠ true := by
  refine ⟨⟨fun hm => ((h.phases i).closed hm).2 hi, (h.phases i).closing⟩, fun hm => ?_⟩
  rw [((h.phases i).freed hm).1] at hi
  cases hi

theorem UnloadOk.destroy (h : UnloadOk m mutex threads)
    (hd : destroyModuleInstance m (threads i) = some (p, m', events))
    (hdrained : .drained ∈ events → ∀ j slot, threads j ≠ .checked slot)
    (hfreed : .freed ∈ events → ∀ j slot, threads j ≠ .begun slot) :
    UnloadOk m' mutex (Function.update threads i p) := by
  cases hi : threads i with
  | destroy =>
      have hdestroying : destroying (threads i) := by rw [hi]; rfl
      obtain ⟨hclosed, hlive⟩ := h.stage hdestroying
      rw [hi] at hclosed
      simp only [hi, destroyModuleInstance] at hd
      cases hd
      exact h.advance hdestroying rfl rfl rfl nofun hclosed id nofun fun hm => absurd hm hlive
  | spin =>
      have hdestroying : destroying (threads i) := by rw [hi]; rfl
      obtain ⟨hclosed, hlive⟩ := h.stage hdestroying
      rw [hi] at hclosed
      have hstored := (h.phases i).stored (by rw [hi]; rfl)
      simp only [hi, destroyModuleInstance] at hd
      split_ifs at hd with hcount
      · cases hd
        rwa [← hi, Function.update_eq_self]
      · cases hd
        have hquiet := h.quiet (Nat.eq_zero_of_not_pos hcount) (hdrained (by simp))
        exact h.advance hdestroying rfl rfl rfl hstored hclosed id (fun _ => hquiet) fun hm => absurd hm hlive
  | callback | deinit | freeMutex | freePath =>
      have hdestroying : destroying (threads i) := by rw [hi]; rfl
      obtain ⟨hclosed, hlive⟩ := h.stage hdestroying
      rw [hi] at hclosed
      have hstored := (h.phases i).stored (by rw [hi]; rfl)
      have hquiet : ∀ j, engaged (threads j) = false := fun j => h.drained i j (by rw [hi]; rfl)
      simp only [hi, destroyModuleInstance] at hd
      cases hd
      exact h.advance hdestroying rfl rfl rfl hstored hclosed id (fun _ => hquiet) fun hm => absurd hm hlive
  | close =>
      have hdestroying : destroying (threads i) := by rw [hi]; rfl
      obtain ⟨-, hlive⟩ := h.stage hdestroying
      have hstored := (h.phases i).stored (by rw [hi]; rfl)
      have hquiet : ∀ j, engaged (threads j) = false := fun j => h.drained i j (by rw [hi]; rfl)
      simp only [hi, destroyModuleInstance] at hd
      cases hd
      exact h.advance hdestroying rfl rfl rfl hstored (by simp [pastClose]) (fun _ => rfl) (fun _ => hquiet)
        fun hm => absurd hm hlive
  | freeInstance =>
      have hdestroying : destroying (threads i) := by rw [hi]; rfl
      obtain ⟨hclosed, -⟩ := h.stage hdestroying
      rw [hi] at hclosed
      have hstored := (h.phases i).stored (by rw [hi]; rfl)
      have hquiet : ∀ j, engaged (threads j) = false := fun j => h.drained i j (by rw [hi]; rfl)
      simp only [hi, destroyModuleInstance] at hd
      cases hd
      have hnone : ∀ j, isBegun (threads j) = false := by
        intro j
        have hbegun := hfreed (List.mem_singleton_self _) j
        cases hj : threads j with
        | begun slot => exact absurd hj (hbegun slot)
        | idle | checked | counted | called | found | count | remove | destroy | spin | callback | deinit | close
          | freeMutex | freePath | freeInstance | freeHandle => rfl
      exact h.advance hdestroying rfl rfl rfl hstored hclosed id (fun _ => hquiet) fun _ => ⟨rfl, hnone⟩
  | freeHandle =>
      simp only [hi, destroyModuleInstance] at hd
      cases hd
      have hcount : m.refCount + inside (threads i) = m.refCount := by simp [hi, inside]
      have hrest := h.rest (p := .idle) hcount rfl rfl rfl rfl (fun _ => rfl) nofun h.others
      exact ⟨hrest.counted, hrest.shut, hrest.gone,
        fun j => (hrest.phases j).keep id rfl rfl rfl fun hl => ((hrest.phases j).held hl).1,
        hrest.drained, hrest.single⟩
  | idle | begun | checked | counted | called | found | count | remove => simp [hi, destroyModuleInstance] at hd

theorem handleGet_spec (h : handleGet m p = some (q, m', events)) :
    (engaged p ∨ isBegun p) ∧ m'.closed = m.closed ∧ m'.instanceFreed = m.instanceFreed ∧
      (∀ e ∈ events, ¬Ends e) ∧ ∀ e ∈ events, Calls e → engaged p := by
  cases p with
  | begun | counted | called =>
      simp only [handleGet] at h
      cases h
      simp [engaged, isBegun, Ends, Calls]
  | checked slot =>
      simp only [handleGet] at h
      split_ifs at h
      all_goals
        cases h
        simp [engaged, Ends, Calls]
  | idle | found | count | remove | destroy | spin | callback | deinit | close | freeMutex | freePath | freeInstance
  | freeHandle => cases h

theorem unload_spec {leaves : Bool} (h : unloadModuleImpl m p = some (q, m', leaves, events)) :
    locked p ∧ m'.closed = m.closed ∧ m'.instanceFreed = m.instanceFreed ∧ ∀ e ∈ events, e = .accessed := by
  cases p with
  | found | count =>
      simp only [unloadModuleImpl] at h
      split_ifs at h
      all_goals
        cases h
        simp [locked]
  | remove =>
      cases h
      simp [locked]
  | idle | begun | checked | counted | called | destroy | spin | callback | deinit | close | freeMutex | freePath
  | freeInstance | freeHandle => cases h

structure DestroyStep (m : Module) (p : Phase) (events : List Event) (m' : Module) : Prop where
  closed : m.closed = true → m'.closed = true
  gone : m.instanceFreed = true → m'.instanceFreed = true
  calls : ∀ e ∈ events, Calls e → p = .deinit
  accesses : .accessed ∈ events → destroying p
  closes : .closed ∈ events → m'.closed = true
  frees : .freed ∈ events → m'.instanceFreed = true ∧ pastClose p
  once : UnusedAfterUnload events

theorem destroy_spec (h : destroyModuleInstance m p = some (q, m', events)) : DestroyStep m p events m' := by
  cases p with
  | destroy | callback | close | freeMutex | freePath | freeInstance | freeHandle =>
      simp only [destroyModuleInstance] at h
      cases h
      constructor <;> simp [Calls, destroying, pastClose, UnusedAfterUnload, NoUseAfter, Ends]
  | spin | deinit =>
      simp only [destroyModuleInstance] at h
      split_ifs at h
      all_goals
        cases h
        constructor <;> simp [Calls, destroying, UnusedAfterUnload, NoUseAfter, Ends]
  | idle | begun | checked | counted | called | found | count | remove => cases h

end Steps

section Runs

variable {s s' : System n} {events : List Event}

theorem UnloadOk.start (vtable : Slot → Bool) (deinit : Bool) :
    UnloadOk (System.start n vtable deinit).module none (System.start n vtable deinit).threads := by
  refine ⟨?_, nofun, nofun, fun _ => ⟨nofun, nofun, nofun, nofun, nofun, nofun⟩, nofun, nofun⟩
  simp [System.start, tally, inside]

theorem UnloadOk.step (h : UnloadOk s.module s.registryMutex s.threads) (hs : guarded WindowsShut Step s events s') :
    UnloadOk s'.module s'.registryMutex s'.threads := by
  obtain ⟨hstep, hshut⟩ := hs
  cases hstep with
  | beginGet i slot hidle hvalid =>
      have hlive := hshut.began slot (List.mem_singleton_self _)
      exact h.rest (by simp [hidle, inside]) rfl rfl rfl rfl (by simp [hlive]) nofun h.others
  | get i p module _ hg => exact h.get hg
  | beginUnload i hidle hvalid hfree hfound =>
      refine h.rest (by simp [hidle, inside]) rfl rfl rfl rfl (fun _ => rfl) (fun _ => ⟨rfl, hfound⟩) ?_
      intro j _ hj
      have hmutex := ((h.phases j).held hj).1
      rw [hfree] at hmutex
      cases hmutex
  | missing => exact h
  | unload i p module leaves _ hu => exact h.unload hu
  | destroy i p module _ hd => exact h.destroy hd hshut.drained hshut.freed

theorem step_ordered (hs : Step s events s') : UnusedAfterUnload events := by
  cases hs with
  | beginGet | beginUnload => exact ⟨List.pairwise_singleton _ _, List.pairwise_singleton _ _⟩
  | missing => exact ⟨List.Pairwise.nil, List.Pairwise.nil⟩
  | get i p module _ hg =>
      have hends := (handleGet_spec hg).2.2.2.1
      exact ⟨.of_no_end hends, .of_no_end fun e he hfreed => hends e he (.inr hfreed)⟩
  | unload i p module leaves _ hu =>
      have haccessed := (unload_spec hu).2.2.2
      constructor
      · refine .of_no_end fun e he hends => ?_
        rw [haccessed e he] at hends
        simp [Ends] at hends
      · refine .of_no_end fun e he hfreed => ?_
        rw [haccessed e he] at hfreed
        cases hfreed
  | destroy i p module _ hd => exact (destroy_spec hd).once

theorem UnloadOk.closes (h : UnloadOk s.module s.registryMutex s.threads) (hs : Step s events s') {e : Event}
    (he : e ∈ events) (hends : Ends e) : s'.module.closed = true := by
  cases hs with
  | beginGet | beginUnload => simp_all [Ends]
  | missing => cases he
  | get i p module _ hg => exact absurd hends ((handleGet_spec hg).2.2.2.1 e he)
  | unload i p module leaves _ hu =>
      rw [(unload_spec hu).2.2.2 e he] at hends
      simp [Ends] at hends
  | destroy i p module _ hd =>
      have hspec := destroy_spec hd
      rcases hends with rfl | rfl
      · exact hspec.closes he
      · exact hspec.closed ((h.phases i).closing (hspec.frees he).2)

/-- Nobody who could call the module is left when the library is closed. -/
theorem UnloadOk.silent (h : UnloadOk s.module s.registryMutex s.threads) (hs : Step s events s')
    (hgone : s.module.closed = true) : s'.module.closed = true ∧ ∀ e ∈ events, ¬Calls e := by
  cases hs with
  | beginGet | beginUnload => exact ⟨hgone, by simp [Calls]⟩
  | missing => exact ⟨hgone, nofun⟩
  | get i p module _ hg =>
      obtain ⟨-, hclosed, -, -, hcalls⟩ := handleGet_spec hg
      refine ⟨hclosed.trans hgone, fun e he hc => ?_⟩
      have hengaged := hcalls e he hc
      rw [((h.phases i).closed hgone).1] at hengaged
      cases hengaged
  | unload i p module leaves _ hu =>
      obtain ⟨-, hclosed, -, haccessed⟩ := unload_spec hu
      refine ⟨hclosed.trans hgone, fun e he hc => ?_⟩
      rw [haccessed e he] at hc
      simp [Calls] at hc
  | destroy i p module _ hd =>
      have hspec := destroy_spec hd
      refine ⟨hspec.closed hgone, fun e he hc => ?_⟩
      have hclose := ((h.phases i).closed hgone).2
      rw [hspec.calls e he hc] at hclose
      simp [destroying, pastClose] at hclose

theorem step_frees (hs : Step s events s') (he : .freed ∈ events) : s'.module.instanceFreed = true := by
  cases hs with
  | beginGet | beginUnload => simp at he
  | missing => cases he
  | get i p module _ hg => exact absurd (.inr rfl) ((handleGet_spec hg).2.2.2.1 _ he)
  | unload i p module leaves _ hu => cases (unload_spec hu).2.2.2 _ he
  | destroy i p module _ hd => exact ((destroy_spec hd).frees he).1

/-- Nobody who could look at the instance is left when it is freed. -/
theorem UnloadOk.unread (h : UnloadOk s.module s.registryMutex s.threads) (hs : Step s events s')
    (hgone : s.module.instanceFreed = true) : s'.module.instanceFreed = true ∧ .accessed ∉ events := by
  obtain ⟨hclosed, hremoved⟩ := h.gone hgone
  cases hs with
  | beginGet i slot => exact ⟨hgone, by simp⟩
  | beginUnload i _ _ _ hfound =>
      rw [hremoved] at hfound
      cases hfound
  | missing => exact ⟨hgone, List.not_mem_nil⟩
  | get i p module _ hg =>
      obtain ⟨hbusy, -⟩ := handleGet_spec hg
      rw [((h.phases i).closed hclosed).1, ((h.phases i).freed hgone).2] at hbusy
      simp at hbusy
  | unload i p module leaves _ hu =>
      have hregistered := ((h.phases i).held (unload_spec hu).1).2
      rw [hremoved] at hregistered
      cases hregistered
  | destroy i p module _ hd =>
      have hspec := destroy_spec hd
      refine ⟨hspec.gone hgone, fun haccessed => ?_⟩
      have hdestroying := hspec.accesses haccessed
      rw [((h.phases i).freed hgone).1] at hdestroying
      cases hdestroying

/-- With the windows shut nothing of the module is used after its unload. -/
theorem no_module_use_after_unload {vtable : Slot → Bool} {deinit : Bool} {trace : List Event}
    (hrun : Run (guarded WindowsShut Step) (System.start n vtable deinit) trace s) : UnusedAfterUnload trace := by
  constructor
  · apply hrun.no_use_after (fun s => UnloadOk s.module s.registryMutex s.threads) (fun s => s.module.closed = true)
    · exact UnloadOk.start vtable deinit
    · exact fun s events s' h hs => h.step hs
    · exact fun s events s' _ hs => (step_ordered hs.1).1
    · exact fun s events s' h hs e he hends => h.closes hs.1 he hends
    · exact fun s events s' h hs hgone => h.silent hs.1 hgone
  · apply hrun.no_use_after (fun s => UnloadOk s.module s.registryMutex s.threads)
      (fun s => s.module.instanceFreed = true)
    · exact UnloadOk.start vtable deinit
    · exact fun s events s' h hs => h.step hs
    · exact fun s events s' _ hs => (step_ordered hs.1).2
    · rintro s events s' _ hs e he rfl
      exact step_frees hs.1 he
    · intro s events s' h hs hgone
      obtain ⟨hstill, hunread⟩ := h.unread hs.1 hgone
      exact ⟨hstill, fun e he haccessed => hunread (haccessed ▸ he)⟩

/-- The destroyer waits for a call that has counted itself, and deinits the module
after it. -/
theorem unload_waits_for_call : ∃ trace s, Run (guarded WindowsShut Step) (System.start 2 (fun _ => true) true) trace s ∧
    trace.filter (fun e => e ≠ .accessed) =
      [.began .getFunction, .invoked .getFunction, .drained, .deinited, .closed, .freed] ∧ UnusedAfterUnload trace := by
  have r₁ : Run (guarded WindowsShut Step) (System.start 2 (fun _ => true) true) _ _ :=
    .next .start ⟨.beginUnload _ 1 rfl rfl rfl rfl, by simp, by simp, by simp⟩
  have r₂ := r₁.next ⟨.unload _ 1 _ _ _ _ rfl, by simp, by simp, by simp⟩
  have r₃ := r₂.next ⟨.unload _ 1 _ _ _ _ rfl, by simp, by simp, by simp⟩
  have r₄ := r₃.next ⟨.unload _ 1 _ _ _ _ rfl, nofun, nofun, nofun⟩
  have r₅ := r₄.next ⟨.beginGet _ 0 .getFunction rfl rfl, nofun, nofun, fun _ _ => rfl⟩
  have r₆ := r₅.next ⟨.get _ 0 _ _ _ rfl, by simp, by simp, by simp⟩
  have r₇ := r₆.next ⟨.get _ 0 _ _ _ rfl, by simp, by simp, by simp⟩
  have r₈ := r₇.next ⟨.destroy _ 1 _ _ _ rfl, by simp, by simp, by simp⟩
  have r₉ := r₈.next ⟨.destroy _ 1 _ _ _ rfl, by simp, by simp, by simp⟩
  have r₁₀ := r₉.next ⟨.get _ 0 _ _ _ rfl, by simp, by simp, by simp⟩
  have r₁₁ := r₁₀.next ⟨.get _ 0 _ _ _ rfl, by simp, by simp, by simp⟩
  have r₁₂ := r₁₁.next ⟨.destroy _ 1 _ _ _ rfl, fun _ i _ => by fin_cases i <;> exact nofun, by simp, by simp⟩
  have r₁₃ := r₁₂.next ⟨.destroy _ 1 _ _ _ rfl, by simp, by simp, by simp⟩
  have r₁₄ := r₁₃.next ⟨.destroy _ 1 _ _ [.accessed, .deinited] rfl, by simp, by simp, by simp⟩
  have r₁₅ := r₁₄.next ⟨.destroy _ 1 _ _ _ rfl, by simp, by simp, by simp⟩
  have r₁₆ := r₁₅.next ⟨.destroy _ 1 _ _ _ rfl, by simp, by simp, by simp⟩
  have r₁₇ := r₁₆.next ⟨.destroy _ 1 _ _ _ rfl, by simp, by simp, by simp⟩
  have r₁₈ := r₁₇.next ⟨.destroy _ 1 _ _ _ rfl, nofun, fun _ i _ => by fin_cases i <;> exact nofun, by simp⟩
  exact ⟨_, _, r₁₈, rfl, no_module_use_after_unload r₁₈⟩

end Runs

/-- A call finds the module loaded and counts itself only after an unload has
found the count zero and freed the instance. It then calls into the closed
library. -/
theorem get_after_unload : ∃ trace s, Run Step (System.start 2 (fun _ => true) true) trace s ∧
    ¬NoUseAfter Ends Calls trace ∧ ¬NoUseAfter (· = Event.freed) (· = Event.accessed) trace ∧
    ¬UnusedAfterUnload trace := by
  have r₁ := Run.next .start (Step.beginGet (System.start 2 (fun _ => true) true) 0 .getFunction rfl rfl)
  have r₂ := r₁.next (.get _ 0 _ _ _ rfl)
  have r₃ := r₂.next (.beginUnload _ 1 rfl rfl rfl rfl)
  have r₄ := r₃.next (.unload _ 1 _ _ _ _ rfl)
  have r₅ := r₄.next (.unload _ 1 _ _ _ _ rfl)
  have r₆ := r₅.next (.unload _ 1 _ _ _ _ rfl)
  have r₇ := r₆.next (.destroy _ 1 _ _ _ rfl)
  have r₈ := r₇.next (.destroy _ 1 _ _ _ rfl)
  have r₉ := r₈.next (.destroy _ 1 _ _ _ rfl)
  have r₁₀ := r₉.next (.destroy _ 1 _ _ _ rfl)
  have r₁₁ := r₁₀.next (.destroy _ 1 _ _ _ rfl)
  have r₁₂ := r₁₁.next (.destroy _ 1 _ _ _ rfl)
  have r₁₃ := r₁₂.next (.destroy _ 1 _ _ _ rfl)
  have r₁₄ := r₁₃.next (.destroy _ 1 _ _ _ rfl)
  have r₁₅ := r₁₄.next (.get _ 0 _ _ _ rfl)
  have r₁₆ := r₁₅.next (.get _ 0 _ _ _ rfl)
  refine ⟨_, _, r₁₆, ?_, ?_, ?_⟩
  · simp [NoUseAfter, Ends, Calls, System.start, System.move]
  · simp [NoUseAfter, System.start, System.move]
  · simp [UnusedAfterUnload, NoUseAfter, Ends, Calls, System.start, System.move]

end Ak24.ModuleUnload
