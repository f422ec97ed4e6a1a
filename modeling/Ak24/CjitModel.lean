import Ak24.Objects
import Ak24.Transition

namespace Ak24.CjitModel

open Objects Transition

abbrev Str := List UInt8

inductive State
  | init
  | compiled
  | relocated
  | error
  deriving DecidableEq, Repr

inductive Error
  | ok
  | alloc
  | compile
  | relocate
  | symbolNotFound
  | invalidState
  | notAvailable
  deriving DecidableEq, Repr

/-- A call into the compiler with its answer, where the caller looks at it. -/
inductive Call
  | new
  | setErrorFunc
  | setOutputType
  | addIncludePath (path : Str)
  | addLibraryPath (path : Str)
  | addLibrary (name : Str)
  | defineSymbol (name : Str) (value : Option Str)
  | addSymbol (name : Str) (ptr : Nat)
  | compileString (source : Str) (ok : Bool)
  | addFile (path : Str) (ok : Bool)
  | relocate (ok : Bool)
  | getSymbol (name : Str) (found : Option Nat)
  | delete
  deriving DecidableEq, Repr

structure Report where
  errorFn : Nat
  errorCtx : Nat
  msg : Str
  deriving DecidableEq, Repr

structure Event where
  tcc : Nat
  call : Call
  reports : List Report
  deriving DecidableEq, Repr

structure CjitUnit where
  tcc : Nat
  state : State
  errorFn : Option Nat
  errorCtx : Nat
  deriving DecidableEq, Repr

structure Config where
  includePaths : List (Option Str)
  libraryPaths : List (Option Str)
  libraries : List (Option Str)
  defines : List (Option Str)

def tccErrorHandler (unit : CjitUnit) (msg : Str) : List Report :=
  match unit.errorFn with
  | none => []
  | some fn => [⟨fn, unit.errorCtx, msg⟩]

def CjitUnit.called (unit : CjitUnit) (messages : List Str) (call : Call) : Event :=
  ⟨unit.tcc, call, messages.flatMap (tccErrorHandler unit)⟩

structure System where
  units : Heap CjitUnit
  tccs : Nat

def System.empty : System := ⟨Heap.empty CjitUnit, 0⟩

def defineCalls (granted : Bool) (text : Str) : List Call :=
  if 0x3D ∈ text then
    if granted then
      [.defineSymbol (text.takeWhile (· != 0x3D)) (some (text.dropWhile (· != 0x3D)).tail)]
    else []
  else [.defineSymbol text none]

def configCalls (granted : Nat → Bool) (config : Config) : List Call :=
  (config.includePaths.filterMap id).map .addIncludePath ++
  ((config.libraryPaths.filterMap id).map .addLibraryPath ++
  ((config.libraries.filterMap id).map .addLibrary ++
  (config.defines.mapIdx fun i text => text.elim [] (defineCalls (granted i))).flatten))

def akCjitUnitNew (s : System) (config : Option Config) (errorFn : Option Nat) (errorCtx : Nat)
    (granted made : Bool) (names : Nat → Bool) (messages : Nat → List Str) : Option Nat × List Event × System :=
  if !granted then (none, [], s)
  else
    let unit : CjitUnit := ⟨s.tccs, .init, errorFn, errorCtx⟩
    if !made then (none, [], { s with units := (s.units.alloc unit).free s.units.next })
    else
      let calls := config.elim [] (configCalls names)
      (some s.units.next,
        ⟨s.tccs, .new, []⟩ :: ⟨s.tccs, .setErrorFunc, []⟩ ::
          (.setOutputType :: calls).mapIdx fun i call => unit.called (messages i) call,
        ⟨s.units.alloc unit, s.tccs + 1⟩)

/-- `none` is the use of a unit that is not there. -/
def akCjitUnitFree (s : System) (unit : Option Nat) (messages : List Str) : Option (List Event × System) :=
  match unit with
  | none => some ([], s)
  | some p => (s.units.cells p).map fun unit => ([unit.called messages .delete], { s with units := s.units.free p })

def akCjitUnitState (s : System) (unit : Option Nat) : Option State :=
  match unit with
  | none => some .error
  | some p => (s.units.cells p).map CjitUnit.state

def onUnit {α : Type} (s : System) (unit : Option Nat) (null : α) (f : CjitUnit → α × List Event × CjitUnit) :
    Option (α × List Event × System) :=
  match unit with
  | none => some (null, [], s)
  | some p => (s.units.cells p).map fun unit =>
    ((f unit).1, (f unit).2.1, { s with units := s.units.store p (f unit).2.2 })

def closed (unit : CjitUnit) : Bool := unit.state == .relocated || unit.state == .error

def adding (messages : List Str) (call : Option Call) (unit : CjitUnit) : Error × List Event × CjitUnit :=
  match call with
  | none => (.invalidState, [], unit)
  | some call =>
    if closed unit then (.invalidState, [], unit) else (.ok, [unit.called messages call], unit)

def compiling (ok : Bool) (messages : List Str) (call : Option Call) (unit : CjitUnit) :
    Error × List Event × CjitUnit :=
  match call with
  | none => (.invalidState, [], unit)
  | some call =>
    if closed unit then (.invalidState, [], unit)
    else if ok then (.ok, [unit.called messages call], { unit with state := .compiled })
    else (.compile, [unit.called messages call], { unit with state := .error })

def relocating (ok : Bool) (messages : List Str) (unit : CjitUnit) : Error × List Event × CjitUnit :=
  if unit.state != .compiled then (.invalidState, [], unit)
  else if ok then (.ok, [unit.called messages (.relocate true)], { unit with state := .relocated })
  else (.relocate, [unit.called messages (.relocate false)], { unit with state := .error })

def getting (name : Option Str) (found : Option Nat) (messages : List Str) (unit : CjitUnit) :
    Option Nat × List Event × CjitUnit :=
  match name with
  | none => (none, [], unit)
  | some name =>
    if unit.state != .relocated then (none, [], unit)
    else (found, [unit.called messages (.getSymbol name found)], unit)

section Functions

variable (s : System) (unit : Option Nat)

def akCjitAddSource (source : Option Str) (ok : Bool) (messages : List Str) : Option (Error × List Event × System) :=
  onUnit s unit .invalidState (compiling ok messages (source.map (.compileString · ok)))

def akCjitAddFile (filepath : Option Str) (ok : Bool) (messages : List Str) : Option (Error × List Event × System) :=
  onUnit s unit .invalidState (compiling ok messages (filepath.map (.addFile · ok)))

def akCjitAddSymbol (name : Option Str) (ptr : Option Nat) (messages : List Str) :
    Option (Error × List Event × System) :=
  onUnit s unit .invalidState (adding messages (name.bind fun name => ptr.map (.addSymbol name ·)))

def akCjitRelocate (ok : Bool) (messages : List Str) : Option (Error × List Event × System) :=
  onUnit s unit .invalidState (relocating ok messages)

def akCjitGetSymbol (name : Option Str) (found : Option Nat) (messages : List Str) :
    Option (Option Nat × List Event × System) :=
  onUnit s unit none (getting name found messages)

def akCjitAddIncludePath (path : Option Str) (messages : List Str) : Option (Error × List Event × System) :=
  onUnit s unit .invalidState (adding messages (path.map .addIncludePath))

def akCjitAddLibraryPath (path : Option Str) (messages : List Str) : Option (Error × List Event × System) :=
  onUnit s unit .invalidState (adding messages (path.map .addLibraryPath))

def akCjitAddLibrary (name : Option Str) (messages : List Str) : Option (Error × List Event × System) :=
  onUnit s unit .invalidState (adding messages (name.map .addLibrary))

def akCjitDefine (name : Option Str) (value : Option Str) (messages : List Str) :
    Option (Error × List Event × System) :=
  onUnit s unit .invalidState (adding messages (name.map (.defineSymbol · value)))

end Functions

inductive Step : System → List Event → System → Prop
  | new (s : System) (config : Option Config) (errorFn : Option Nat) (errorCtx : Nat) (granted made : Bool)
    (names : Nat → Bool) (messages : Nat → List Str) :
    Step s (akCjitUnitNew s config errorFn errorCtx granted made names messages).2.1
      (akCjitUnitNew s config errorFn errorCtx granted made names messages).2.2
  | free (s s' : System) (unit : Option Nat) (messages : List Str) (events : List Event)
    (hcall : akCjitUnitFree s unit messages = some (events, s')) : Step s events s'
  | addSource (s s' : System) (unit : Option Nat) (source : Option Str) (ok : Bool) (messages : List Str)
    (error : Error) (events : List Event)
    (hcall : akCjitAddSource s unit source ok messages = some (error, events, s')) : Step s events s'
  | addFile (s s' : System) (unit : Option Nat) (filepath : Option Str) (ok : Bool) (messages : List Str)
    (error : Error) (events : List Event)
    (hcall : akCjitAddFile s unit filepath ok messages = some (error, events, s')) : Step s events s'
  | addSymbol (s s' : System) (unit : Option Nat) (name : Option Str) (ptr : Option Nat) (messages : List Str)
    (error : Error) (events : List Event)
    (hcall : akCjitAddSymbol s unit name ptr messages = some (error, events, s')) : Step s events s'
  | relocate (s s' : System) (unit : Option Nat) (ok : Bool) (messages : List Str) (error : Error)
    (events : List Event) (hcall : akCjitRelocate s unit ok messages = some (error, events, s')) : Step s events s'
  | getSymbol (s s' : System) (unit : Option Nat) (name : Option Str) (found : Option Nat) (messages : List Str)
    (ptr : Option Nat) (events : List Event)
    (hcall : akCjitGetSymbol s unit name found messages = some (ptr, events, s')) : Step s events s'
  | addIncludePath (s s' : System) (unit : Option Nat) (path : Option Str) (messages : List Str) (error : Error)
    (events : List Event) (hcall : akCjitAddIncludePath s unit path messages = some (error, events, s')) :
    Step s events s'
  | addLibraryPath (s s' : System) (unit : Option Nat) (path : Option Str) (messages : List Str) (error : Error)
    (events : List Event) (hcall : akCjitAddLibraryPath s unit path messages = some (error, events, s')) :
    Step s events s'
  | addLibrary (s s' : System) (unit : Option Nat) (name : Option Str) (messages : List Str) (error : Error)
    (events : List Event) (hcall : akCjitAddLibrary s unit name messages = some (error, events, s')) :
    Step s events s'
  | define (s s' : System) (unit : Option Nat) (name value : Option Str) (messages : List Str) (error : Error)
    (events : List Event) (hcall : akCjitDefine s unit name value messages = some (error, events, s')) :
    Step s events s'

def calls (tcc : Nat) (trace : List Event) : List Call := (trace.filter (·.tcc = tcc)).map Event.call

def Call.Adds : Call → Prop
  | .addIncludePath _ | .addLibraryPath _ | .addLibrary _ | .defineSymbol .. | .addSymbol .. => True
  | _ => False

def Call.Compiles (ok : Bool) : Call → Prop
  | .compileString _ ok' | .addFile _ ok' => ok' = ok
  | _ => False

def Call.Gets : Call → Prop
  | .getSymbol .. => True
  | _ => False

def opening : List Call := [.new, .setErrorFunc, .setOutputType]

def Building (calls : List Call) : Prop := ∀ call ∈ calls, call.Adds ∨ call.Compiles true

/-- What the compiler sees of a unit in each of its states: code goes in before
the one relocation, which some code precedes, symbols come out after it, and a
failure is the last call. -/
inductive Session : State → List Call → Prop
  | init (adds : List Call) (hadds : ∀ call ∈ adds, call.Adds) : Session .init (opening ++ adds)
  | compiled (building : List Call) (hbuilding : Building building) (hcode : ∃ call ∈ building, call.Compiles true) :
    Session .compiled (opening ++ building)
  | relocated (building gets : List Call) (hbuilding : Building building)
    (hcode : ∃ call ∈ building, call.Compiles true) (hgets : ∀ call ∈ gets, call.Gets) :
    Session .relocated (opening ++ building ++ .relocate true :: gets)
  | compileFailed (building : List Call) (call : Call) (hbuilding : Building building) (hcall : call.Compiles false) :
    Session .error (opening ++ building ++ [call])
  | relocateFailed (building : List Call) (hbuilding : Building building)
    (hcode : ∃ call ∈ building, call.Compiles true) : Session .error (opening ++ building ++ [.relocate false])

inductive Effect (unit : CjitUnit) : List Event → CjitUnit → Prop
  | idle : Effect unit [] unit
  | add (messages : List Str) (call : Call) (hcall : call.Adds) (hopen : closed unit = false) :
    Effect unit [unit.called messages call] unit
  | compiled (messages : List Str) (call : Call) (hcall : call.Compiles true) (hopen : closed unit = false) :
    Effect unit [unit.called messages call] { unit with state := .compiled }
  | compileFailed (messages : List Str) (call : Call) (hcall : call.Compiles false) (hopen : closed unit = false) :
    Effect unit [unit.called messages call] { unit with state := .error }
  | relocated (messages : List Str) (hstate : unit.state = .compiled) :
    Effect unit [unit.called messages (.relocate true)] { unit with state := .relocated }
  | relocateFailed (messages : List Str) (hstate : unit.state = .compiled) :
    Effect unit [unit.called messages (.relocate false)] { unit with state := .error }
  | got (messages : List Str) (call : Call) (hcall : call.Gets) (hstate : unit.state = .relocated) :
    Effect unit [unit.called messages call] unit

section Effects

variable {unit : CjitUnit} {messages : List Str}

theorem adding_effect {call : Option Call} (hcall : ∀ c, call = some c → c.Adds) (unit : CjitUnit) :
    Effect unit (adding messages call unit).2.1 (adding messages call unit).2.2 := by
  cases call with
  | none => exact .idle
  | some call =>
      simp only [adding]
      split_ifs with hclosed
      · exact .idle
      · exact .add _ _ (hcall call rfl) (Bool.not_eq_true _ ▸ hclosed)

theorem compiling_effect {ok : Bool} {call : Option Call} (hcall : ∀ c, call = some c → c.Compiles ok)
    (unit : CjitUnit) :
    Effect unit (compiling ok messages call unit).2.1 (compiling ok messages call unit).2.2 := by
  cases call with
  | none => exact .idle
  | some call =>
      have hcompiles := hcall call rfl
      simp only [compiling]
      split_ifs with hclosed hok
      · exact .idle
      · rw [hok] at hcompiles
        exact .compiled _ _ hcompiles (Bool.not_eq_true _ ▸ hclosed)
      · rw [Bool.not_eq_true] at hok
        rw [hok] at hcompiles
        exact .compileFailed _ _ hcompiles (Bool.not_eq_true _ ▸ hclosed)

theorem relocating_effect (ok : Bool) (unit : CjitUnit) :
    Effect unit (relocating ok messages unit).2.1 (relocating ok messages unit).2.2 := by
  simp only [relocating]
  split_ifs with hstate hok
  · exact .idle
  · exact .relocated _ (by simpa using hstate)
  · exact .relocateFailed _ (by simpa using hstate)

theorem getting_effect (name : Option Str) (found : Option Nat) (unit : CjitUnit) :
    Effect unit (getting name found messages unit).2.1 (getting name found messages unit).2.2 := by
  cases name with
  | none => exact .idle
  | some name =>
      simp only [getting]
      split_ifs with hstate
      · exact .idle
      · exact .got _ _ trivial (by simpa using hstate)

end Effects

section Sessions

variable {state : State} {log : List Call} {call : Call}

/-- Before its relocation, the calls of a unit are its opening and what has been added since. -/
theorem Session.building (h : Session state log) (hrelocated : state ≠ .relocated) (herror : state ≠ .error) :
    ∃ building, log = opening ++ building ∧ Building building ∧
      (state = .init ∧ (∀ call ∈ building, call.Adds) ∨
        state = .compiled ∧ ∃ call ∈ building, call.Compiles true) := by
  cases h with
  | init adds hadds => exact ⟨adds, rfl, fun c hc => .inl (hadds c hc), .inl ⟨rfl, hadds⟩⟩
  | compiled building hbuilding hcode => exact ⟨building, rfl, hbuilding, .inr ⟨rfl, hcode⟩⟩
  | relocated => exact absurd rfl hrelocated
  | compileFailed | relocateFailed => exact absurd rfl herror

theorem Building.append {building : List Call} (h : Building building) (hcall : call.Adds ∨ call.Compiles true) :
    Building (building ++ [call]) := by
  intro c hc
  rcases List.mem_append.mp hc with hold | hnew
  · exact h c hold
  · rw [List.mem_singleton.mp hnew]
    exact hcall

theorem Session.add (h : Session state log) (hrelocated : state ≠ .relocated) (herror : state ≠ .error)
    (hcall : call.Adds) : Session state (log ++ [call]) := by
  obtain ⟨building, rfl, hbuilding, ⟨rfl, hadds⟩ | ⟨rfl, code, hcode, hcompiles⟩⟩ := h.building hrelocated herror
  · rw [List.append_assoc]
    refine .init _ fun c hc => ?_
    rcases List.mem_append.mp hc with hold | hnew
    · exact hadds c hold
    · rw [List.mem_singleton.mp hnew]
      exact hcall
  · rw [List.append_assoc]
    exact .compiled _ (hbuilding.append (.inl hcall)) ⟨code, List.mem_append_left _ hcode, hcompiles⟩

theorem Session.compile (h : Session state log) (hrelocated : state ≠ .relocated) (herror : state ≠ .error)
    (hcall : call.Compiles true) : Session .compiled (log ++ [call]) := by
  obtain ⟨building, rfl, hbuilding, -⟩ := h.building hrelocated herror
  rw [List.append_assoc]
  exact .compiled _ (hbuilding.append (.inr hcall)) ⟨call, List.mem_append_right _ (List.mem_singleton.mpr rfl), hcall⟩

theorem Session.fail (h : Session state log) (hrelocated : state ≠ .relocated) (herror : state ≠ .error)
    (hcall : call.Compiles false) : Session .error (log ++ [call]) := by
  obtain ⟨building, rfl, hbuilding, -⟩ := h.building hrelocated herror
  exact .compileFailed _ _ hbuilding hcall

theorem Session.relocate (h : Session .compiled log) (ok : Bool) :
    Session (if ok then .relocated else .error) (log ++ [.relocate ok]) := by
  cases h with
  | compiled building hbuilding hcode =>
      cases ok with
      | false => exact .relocateFailed _ hbuilding hcode
      | true => exact .relocated _ [] hbuilding hcode nofun

theorem Session.get (h : Session .relocated log) (hcall : call.Gets) : Session .relocated (log ++ [call]) := by
  cases h with
  | relocated building gets hbuilding hcode hgets =>
      rw [List.append_assoc, List.cons_append]
      refine .relocated _ _ hbuilding hcode fun c hc => ?_
      rcases List.mem_append.mp hc with hold | hnew
      · exact hgets c hold
      · rw [List.mem_singleton.mp hnew]
        exact hcall

theorem open_of_not_closed {unit : CjitUnit} (h : closed unit = false) :
    unit.state ≠ .relocated ∧ unit.state ≠ .error := by
  simpa [closed] using h

variable {unit unit' : CjitUnit} {events : List Event}

theorem calls_singleton (unit : CjitUnit) (messages : List Str) (call : Call) :
    calls unit.tcc [unit.called messages call] = [call] := by
  simp [calls, CjitUnit.called]

theorem Effect.session (h : Effect unit events unit') (hsession : Session unit.state log) :
    Session unit'.state (log ++ calls unit.tcc events) := by
  cases h with
  | idle => simpa only [calls, List.filter_nil, List.map_nil, List.append_nil] using hsession
  | add messages call hcall hopen =>
      rw [calls_singleton]
      exact hsession.add (open_of_not_closed hopen).1 (open_of_not_closed hopen).2 hcall
  | compiled messages call hcall hopen =>
      rw [calls_singleton]
      exact hsession.compile (open_of_not_closed hopen).1 (open_of_not_closed hopen).2 hcall
  | compileFailed messages call hcall hopen =>
      rw [calls_singleton]
      exact hsession.fail (open_of_not_closed hopen).1 (open_of_not_closed hopen).2 hcall
  | relocated messages hstate =>
      rw [calls_singleton]
      exact (hstate ▸ hsession).relocate true
  | relocateFailed messages hstate =>
      rw [calls_singleton]
      exact (hstate ▸ hsession).relocate false
  | got messages call hcall hstate =>
      rw [calls_singleton, hstate]
      exact (hstate ▸ hsession).get hcall

theorem Effect.keeps (h : Effect unit events unit') :
    unit'.tcc = unit.tcc ∧ unit'.errorFn = unit.errorFn ∧ unit'.errorCtx = unit.errorCtx ∧
      ∀ e ∈ events, ∃ messages call, e = unit.called messages call := by
  cases h with
  | idle => exact ⟨rfl, rfl, rfl, nofun⟩
  | add messages call | compiled messages call | compileFailed messages call | got messages call =>
      refine ⟨rfl, rfl, rfl, fun e he => ⟨messages, call, List.mem_singleton.mp he⟩⟩
  | relocated messages | relocateFailed messages =>
      refine ⟨rfl, rfl, rfl, fun e he => ⟨messages, _, List.mem_singleton.mp he⟩⟩

end Sessions

section Steps

variable {s s' : System} {events : List Event}

/-- The error function of a unit is the one that hears of its compiler. -/
def Reported (unit : CjitUnit) (trace : List Event) : Prop :=
  ∀ e ∈ trace, e.tcc = unit.tcc → ∀ r ∈ e.reports, unit.errorFn = some r.errorFn ∧ r.errorCtx = unit.errorCtx

inductive Change (s : System) : List Event → System → Prop
  | idle (s' : System) (hcells : s'.units.cells = s.units.cells) (htccs : s'.tccs = s.tccs) : Change s [] s'
  | effect (p : Nat) (unit unit' : CjitUnit) (events : List Event) (hunit : s.units.cells p = some unit)
    (heffect : Effect unit events unit') : Change s events { s with units := s.units.store p unit' }
  | new (unit : CjitUnit) (events : List Event) (htcc : unit.tcc = s.tccs) (hown : ∀ e ∈ events, e.tcc = s.tccs)
    (hreported : Reported unit events) (hsession : Session unit.state (calls s.tccs events)) :
    Change s events ⟨s.units.alloc unit, s.tccs + 1⟩
  | free (p : Nat) (unit : CjitUnit) (messages : List Str) (hunit : s.units.cells p = some unit) :
    Change s [unit.called messages .delete] { s with units := s.units.free p }

theorem called_reported (unit : CjitUnit) (messages : List Str) (call : Call) :
    ∀ r ∈ (unit.called messages call).reports, unit.errorFn = some r.errorFn ∧ r.errorCtx = unit.errorCtx := by
  intro r hr
  obtain ⟨msg, -, hmem⟩ := List.mem_flatMap.mp hr
  cases hfn : unit.errorFn with
  | none => simp [tccErrorHandler, hfn] at hmem
  | some fn =>
      rw [tccErrorHandler, hfn, List.mem_singleton] at hmem
      rw [hmem]
      exact ⟨rfl, rfl⟩

theorem onUnit_change {α : Type} {unit : Option Nat} {null a : α} {f : CjitUnit → α × List Event × CjitUnit}
    (hf : ∀ unit, Effect unit (f unit).2.1 (f unit).2.2) (h : onUnit s unit null f = some (a, events, s')) :
    Change s events s' := by
  cases unit with
  | none =>
      cases h
      exact .idle _ rfl rfl
  | some p =>
      obtain ⟨unit, hunit, heq⟩ := Option.map_eq_some_iff.mp h
      cases heq
      exact .effect p unit _ _ hunit (hf unit)

theorem defineCalls_adds (granted : Bool) (text : Str) : ∀ call ∈ defineCalls granted text, call.Adds := by
  intro call hcall
  simp only [defineCalls] at hcall
  split_ifs at hcall
  · rw [List.mem_singleton.mp hcall]
    trivial
  · cases hcall
  · rw [List.mem_singleton.mp hcall]
    trivial

theorem configCalls_adds (granted : Nat → Bool) (config : Config) :
    ∀ call ∈ configCalls granted config, call.Adds := by
  have hmap {f : Str → Call} (hf : ∀ text, (f text).Adds) (texts : List Str) : ∀ call ∈ texts.map f, call.Adds := by
    intro call hcall
    obtain ⟨text, -, rfl⟩ := List.mem_map.mp hcall
    exact hf text
  intro call hcall
  simp only [configCalls, List.mem_append] at hcall
  obtain hcall | hcall | hcall | hcall := hcall
  · exact hmap (f := .addIncludePath) (fun _ => trivial) _ call hcall
  · exact hmap (f := .addLibraryPath) (fun _ => trivial) _ call hcall
  · exact hmap (f := .addLibrary) (fun _ => trivial) _ call hcall
  · obtain ⟨list, hlist, hmem⟩ := List.mem_flatten.mp hcall
    obtain ⟨i, hi, rfl⟩ := List.mem_mapIdx.mp hlist
    cases htext : config.defines[i] with
    | none =>
        rw [htext] at hmem
        cases hmem
    | some text =>
        rw [htext] at hmem
        exact defineCalls_adds _ text call hmem

theorem calls_own (tcc : Nat) (h : ∀ e ∈ events, e.tcc = tcc) : calls tcc events = events.map Event.call := by
  rw [calls, List.filter_eq_self.mpr fun e he => decide_eq_true (h e he)]

theorem calls_other {tcc : Nat} (h : ∀ e ∈ events, e.tcc ≠ tcc) : calls tcc events = [] := by
  rw [calls, List.filter_eq_nil_iff.mpr fun e he => by simpa using h e he, List.map_nil]

theorem calls_append (tcc : Nat) (before after : List Event) :
    calls tcc (before ++ after) = calls tcc before ++ calls tcc after := by
  rw [calls, List.filter_append, List.map_append]
  rfl

theorem map_call_mapIdx (unit : CjitUnit) (messages : Nat → List Str) (calls : List Call) :
    (calls.mapIdx fun i call => unit.called (messages i) call).map Event.call = calls := by
  apply List.ext_getElem
  · rw [List.length_map, List.length_mapIdx]
  · intro i hi hi'
    rw [List.getElem_map, List.getElem_mapIdx]
    rfl

theorem new_change (s : System) (config : Option Config) (errorFn : Option Nat) (errorCtx : Nat) (granted made : Bool)
    (names : Nat → Bool) (messages : Nat → List Str) :
    Change s (akCjitUnitNew s config errorFn errorCtx granted made names messages).2.1
      (akCjitUnitNew s config errorFn errorCtx granted made names messages).2.2 := by
  simp only [akCjitUnitNew]
  split_ifs
  · exact .idle _ rfl rfl
  · exact .idle _ (Heap.alloc_free_cells _ _) rfl
  · have hadds : ∀ call ∈ config.elim [] (configCalls names), call.Adds := by
      cases config with
      | none => exact nofun
      | some config => exact configCalls_adds names config
    set calls := config.elim [] (configCalls names)
    set unit : CjitUnit := ⟨s.tccs, .init, errorFn, errorCtx⟩
    have hconfigured : ∀ e ∈ (Call.setOutputType :: calls).mapIdx fun i call => unit.called (messages i) call,
        ∃ i call, e = unit.called (messages i) call := by
      intro e he
      obtain ⟨i, hi, rfl⟩ := List.mem_mapIdx.mp he
      exact ⟨i, _, rfl⟩
    have hown : ∀ e ∈ ⟨s.tccs, .new, []⟩ :: ⟨s.tccs, .setErrorFunc, []⟩ ::
        (Call.setOutputType :: calls).mapIdx fun i call => unit.called (messages i) call, e.tcc = s.tccs := by
      intro e he
      rcases List.mem_cons.mp he with rfl | he
      · rfl
      · rcases List.mem_cons.mp he with rfl | he
        · rfl
        · obtain ⟨i, call, rfl⟩ := hconfigured e he
          rfl
    refine .new unit _ rfl hown ?_ ?_
    · intro e he _ r hr
      rcases List.mem_cons.mp he with rfl | he
      · cases hr
      · rcases List.mem_cons.mp he with rfl | he
        · cases hr
        · obtain ⟨i, call, rfl⟩ := hconfigured e he
          exact called_reported unit _ _ r hr
    · rw [calls_own _ hown, List.map_cons, List.map_cons, map_call_mapIdx]
      exact .init calls hadds

theorem map_of_forall {α : Type} {P : Call → Prop} {f : α → Call} (hf : ∀ a, P (f a)) (arg : Option α) :
    ∀ call, arg.map f = some call → P call := by
  intro call hcall
  obtain ⟨a, -, rfl⟩ := Option.map_eq_some_iff.mp hcall
  exact hf a

theorem step_change (h : Step s events s') : Change s events s' := by
  cases h with
  | new config errorFn errorCtx granted made names messages => exact new_change ..
  | free _ unit messages _ hcall =>
      cases unit with
      | none =>
          cases hcall
          exact .idle _ rfl rfl
      | some p =>
          obtain ⟨unit, hunit, heq⟩ := Option.map_eq_some_iff.mp hcall
          cases heq
          exact .free p unit messages hunit
  | addSource _ unit source ok messages error _ hcall =>
      exact onUnit_change (compiling_effect (map_of_forall (f := (.compileString · ok)) (fun _ => rfl) source)) hcall
  | addFile _ unit filepath ok messages error _ hcall =>
      exact onUnit_change (compiling_effect (map_of_forall (f := (.addFile · ok)) (fun _ => rfl) filepath)) hcall
  | addSymbol _ unit name ptr messages error _ hcall =>
      refine onUnit_change (adding_effect fun call heq => ?_) hcall
      obtain ⟨name, -, hptr⟩ := Option.bind_eq_some_iff.mp heq
      exact map_of_forall (f := .addSymbol name) (fun _ => trivial) ptr call hptr
  | relocate _ unit ok messages error _ hcall => exact onUnit_change (relocating_effect ok) hcall
  | getSymbol _ unit name found messages ptr _ hcall => exact onUnit_change (getting_effect name found) hcall
  | addIncludePath _ unit path messages error _ hcall =>
      exact onUnit_change (adding_effect (map_of_forall (f := .addIncludePath) (fun _ => trivial) path)) hcall
  | addLibraryPath _ unit path messages error _ hcall =>
      exact onUnit_change (adding_effect (map_of_forall (f := .addLibraryPath) (fun _ => trivial) path)) hcall
  | addLibrary _ unit name messages error _ hcall =>
      exact onUnit_change (adding_effect (map_of_forall (f := .addLibrary) (fun _ => trivial) name)) hcall
  | define _ unit name value messages error _ hcall =>
      exact onUnit_change (adding_effect (map_of_forall (f := (.defineSymbol · value)) (fun _ => trivial) name)) hcall

end Steps

section Runs

variable {s s' : System} {trace events : List Event}

/-- The units that are there and their compilers, one each, and the compilers that are gone. -/
structure Sound (trace : List Event) (s : System) : Prop where
  live : ∀ p unit, s.units.cells p = some unit →
    unit.tcc < s.tccs ∧ Session unit.state (calls unit.tcc trace) ∧ Reported unit trace
  distinct : ∀ p q unit other, s.units.cells p = some unit → s.units.cells q = some other →
    unit.tcc = other.tcc → p = q
  unused : ∀ e ∈ trace, e.tcc < s.tccs
  gone : ∀ tcc < s.tccs, (∀ p unit, s.units.cells p = some unit → unit.tcc ≠ tcc) →
    ∃ state log, Session state log ∧ calls tcc trace = log ++ [.delete]

theorem Reported.append {unit : CjitUnit} (h : Reported unit trace) (hevents : Reported unit events) :
    Reported unit (trace ++ events) := by
  intro e he
  rcases List.mem_append.mp he with hold | hnew
  · exact h e hold
  · exact hevents e hnew

theorem reported_other {unit : CjitUnit} (h : ∀ e ∈ events, e.tcc ≠ unit.tcc) : Reported unit events :=
  fun e he htcc => absurd htcc (h e he)

theorem Sound.start : Sound [] System.empty where
  live _ _ hunit := by cases hunit
  distinct _ _ _ _ hunit := by cases hunit
  unused := nofun
  gone _ htcc := absurd htcc (Nat.not_lt_zero _)

theorem Sound.idle (h : Sound trace s) (hcells : s'.units.cells = s.units.cells) (htccs : s'.tccs = s.tccs) :
    Sound (trace ++ []) s' := by
  rw [List.append_nil]
  constructor
  · rw [hcells, htccs]
    exact h.live
  · rw [hcells]
    exact h.distinct
  · rw [htccs]
    exact h.unused
  · rw [hcells, htccs]
    exact h.gone

theorem Effect.own {unit unit' : CjitUnit} (h : Effect unit events unit') : ∀ e ∈ events, e.tcc = unit.tcc := by
  intro e he
  obtain ⟨messages, call, rfl⟩ := h.keeps.2.2.2 e he
  rfl

theorem Effect.reported {unit unit' : CjitUnit} (h : Effect unit events unit') : Reported unit events := by
  intro e he _
  obtain ⟨messages, call, rfl⟩ := h.keeps.2.2.2 e he
  exact called_reported unit messages call

theorem calls_append_other {tcc : Nat} (h : ∀ e ∈ events, e.tcc ≠ tcc) :
    calls tcc (trace ++ events) = calls tcc trace := by
  rw [calls_append, calls_other h, List.append_nil]

theorem Sound.effect (h : Sound trace s) {p : Nat} {unit unit' : CjitUnit} (hunit : s.units.cells p = some unit)
    (heffect : Effect unit events unit') : Sound (trace ++ events) { s with units := s.units.store p unit' } := by
  obtain ⟨htcc, hfn, hctx, -⟩ := heffect.keeps
  obtain ⟨hlt, hsession, hreported⟩ := h.live p unit hunit
  -- each unit has the compiler it had
  have hbefore : ∀ q other, (s.units.store p unit').cells q = some other →
      ∃ old, s.units.cells q = some old ∧ old.tcc = other.tcc ∧ (q = p ∨ old = other) := by
    intro q other hother
    by_cases hq : q = p
    · subst q
      rw [Heap.store_self hunit] at hother
      cases hother
      exact ⟨unit, hunit, htcc.symm, .inl rfl⟩
    · rw [Heap.store_of_ne hq] at hother
      exact ⟨other, hother, rfl, .inr rfl⟩
  constructor
  · intro q other hother
    by_cases hq : q = p
    · subst q
      rw [Heap.store_self hunit] at hother
      cases hother
      rw [htcc, calls_append]
      refine ⟨hlt, heffect.session hsession, ?_⟩
      intro e he he'
      rw [hfn, hctx]
      exact hreported.append heffect.reported e he (htcc ▸ he')
    · rw [Heap.store_of_ne hq] at hother
      obtain ⟨hlt', hsession', hreported'⟩ := h.live q other hother
      have hne : ∀ e ∈ events, e.tcc ≠ other.tcc := by
        intro e he heq
        exact hq (h.distinct q p other unit hother hunit (heq.symm.trans (heffect.own e he)))
      rw [calls_append_other hne]
      exact ⟨hlt', hsession', hreported'.append (reported_other hne)⟩
  · intro q q' other other' hother hother' heq
    obtain ⟨old, hold, hold', -⟩ := hbefore q other hother
    obtain ⟨old', holdq', hold'', -⟩ := hbefore q' other' hother'
    exact h.distinct q q' old old' hold holdq' (hold'.trans (heq.trans hold''.symm))
  · intro e he
    rcases List.mem_append.mp he with hold | hnew
    · exact h.unused e hold
    · rw [heffect.own e hnew]
      exact hlt
  · intro tcc htcc' hnone
    have hne : tcc ≠ unit.tcc := by
      rintro rfl
      exact hnone p unit' (Heap.store_self hunit) htcc
    rw [calls_append_other fun e he heq => hne (heq.symm.trans (heffect.own e he))]
    refine h.gone tcc htcc' fun q other hother heq => ?_
    by_cases hq : q = p
    · subst q
      rw [hunit] at hother
      cases hother
      exact hne heq.symm
    · exact hnone q other (by rwa [Heap.store_of_ne hq]) heq

theorem Sound.new (h : Sound trace s) {unit : CjitUnit} (htcc : unit.tcc = s.tccs)
    (hown : ∀ e ∈ events, e.tcc = s.tccs) (hreported : Reported unit events)
    (hsession : Session unit.state (calls s.tccs events)) :
    Sound (trace ++ events) ⟨s.units.alloc unit, s.tccs + 1⟩ := by
  have hfresh : ∀ e ∈ trace, e.tcc ≠ s.tccs := fun e he => (h.unused e he).ne
  have hother : ∀ tcc < s.tccs, ∀ e ∈ events, e.tcc ≠ tcc := fun tcc hlt e he heq => by
    rw [hown e he] at heq
    omega
  constructor
  · intro q other hq
    rcases Heap.alloc_eq_some hq with ⟨-, rfl⟩ | hold
    · rw [htcc, calls_append, calls_other hfresh, List.nil_append]
      refine ⟨Nat.lt_succ_self _, hsession, ?_⟩
      exact Reported.append (reported_other fun e he => htcc ▸ hfresh e he) hreported
    · obtain ⟨hlt, hsession', hreported'⟩ := h.live q other hold
      rw [calls_append_other (hother _ hlt)]
      exact ⟨Nat.lt_succ_of_lt hlt, hsession', hreported'.append (reported_other (hother _ hlt))⟩
  · intro q q' other other' hq hq' heq
    rcases Heap.alloc_eq_some hq with ⟨rfl, rfl⟩ | hold <;> rcases Heap.alloc_eq_some hq' with ⟨rfl, rfl⟩ | hold'
    · rfl
    · have hlt := (h.live q' other' hold').1
      omega
    · have hlt := (h.live q other hold).1
      omega
    · exact h.distinct q q' other other' hold hold' heq
  · intro e he
    rcases List.mem_append.mp he with hold | hnew
    · exact Nat.lt_succ_of_lt (h.unused e hold)
    · rw [hown e hnew]
      exact Nat.lt_succ_self _
  · intro tcc hlt hnone
    have hne : tcc ≠ s.tccs := by
      rintro rfl
      exact hnone s.units.next unit (Heap.alloc_self _ _) htcc
    have hlt' : tcc < s.tccs := by
      dsimp only at hlt
      omega
    rw [calls_append_other (hother tcc hlt')]
    exact h.gone tcc hlt' fun q other hq => hnone q other (Heap.alloc_old hq)

theorem Sound.free (h : Sound trace s) {p : Nat} {unit : CjitUnit} (messages : List Str)
    (hunit : s.units.cells p = some unit) :
    Sound (trace ++ [unit.called messages .delete]) { s with units := s.units.free p } := by
  obtain ⟨hlt, hsession, -⟩ := h.live p unit hunit
  have hown : ∀ tcc, tcc ≠ unit.tcc → ∀ e ∈ [unit.called messages .delete], e.tcc ≠ tcc := by
    intro tcc hne e he heq
    rw [List.mem_singleton.mp he] at heq
    exact hne heq.symm
  constructor
  · intro q other hq
    obtain ⟨hne, hold⟩ := Heap.free_eq_some hq
    obtain ⟨hlt', hsession', hreported'⟩ := h.live q other hold
    have hother := hown other.tcc fun heq => hne (h.distinct q p other unit hold hunit heq)
    rw [calls_append_other hother]
    exact ⟨hlt', hsession', hreported'.append (reported_other hother)⟩
  · intro q q' other other' hq hq'
    exact h.distinct q q' other other' (Heap.free_eq_some hq).2 (Heap.free_eq_some hq').2
  · intro e he
    rcases List.mem_append.mp he with hold | hnew
    · exact h.unused e hold
    · rw [List.mem_singleton.mp hnew]
      exact hlt
  · intro tcc hlt' hnone
    by_cases htcc : tcc = unit.tcc
    · subst tcc
      rw [calls_append, calls_singleton]
      exact ⟨_, _, hsession, rfl⟩
    · rw [calls_append_other (hown tcc htcc)]
      refine h.gone tcc hlt' fun q other hq heq => ?_
      by_cases hqp : q = p
      · subst q
        rw [hunit] at hq
        cases hq
        exact htcc heq.symm
      · exact hnone q other (by rwa [Heap.free_of_ne hqp]) heq

theorem Sound.step (h : Sound trace s) (hs : Step s events s') : Sound (trace ++ events) s' := by
  cases step_change hs with
  | idle _ hcells htccs => exact h.idle hcells htccs
  | effect p unit unit' _ hunit heffect => exact h.effect hunit heffect
  | new unit _ htcc hown hreported hsession => exact h.new htcc hown hreported hsession
  | free p unit messages hunit => exact h.free messages hunit

/-- Over every run of any number of units, what each state of the compiler sees
is a session of the state its unit reports, and of one that is gone a session and
its deletion; no two units share one, and the messages of each go to the error
function its unit was made with. -/
theorem units_hold_sessions (hrun : Run Step System.empty trace s) :
    (∀ p unit, s.units.cells p = some unit →
      (∃ state, akCjitUnitState s (some p) = some state ∧ Session state (calls unit.tcc trace)) ∧ Reported unit trace) ∧
    (∀ p q unit other, s.units.cells p = some unit → s.units.cells q = some other →
      unit.tcc = other.tcc → p = q) ∧
    (∀ tcc, (∀ p unit, s.units.cells p = some unit → unit.tcc ≠ tcc) →
      calls tcc trace = [] ∨ ∃ state log, Session state log ∧ calls tcc trace = log ++ [.delete]) := by
  have hsound := hrun.invariant (P := Sound) Sound.start fun _ _ _ _ hold hs => hold.step hs
  refine ⟨fun p unit hunit => ?_, hsound.distinct, ?_⟩
  · obtain ⟨-, hsession, hreported⟩ := hsound.live p unit hunit
    exact ⟨⟨unit.state, by rw [akCjitUnitState, hunit, Option.map_some], hsession⟩, hreported⟩
  intro tcc hnone
  by_cases hlt : tcc < s.tccs
  · exact .inr (hsound.gone tcc hlt hnone)
  · exact .inl (calls_other fun e he heq => hlt (heq ▸ hsound.unused e he))

/-- A unit with one source, relocated, asked for a symbol, refused another source and freed. -/
theorem units_hold_sessions_freed :
    ∃ state log, Session state log ∧
      log ++ [.delete] = [.new, .setErrorFunc, .setOutputType, .defineSymbol [0x41] (some [0x31]),
        .compileString [0x66] true, .relocate true, .getSymbol [0x66] (some 5), .delete] := by
  have h₁ := Run.start.next (Step.new System.empty (some ⟨[], [none], [], [some [0x41, 0x3D, 0x31]]⟩) (some 3) 9
    true true (fun _ => true) fun _ => [])
  have h₂ := h₁.next (.addSource _ _ (some 0) (some [0x66]) true [[0x77]] _ _ rfl)
  have h₃ := h₂.next (.relocate _ _ (some 0) true [] _ _ rfl)
  have h₄ := h₃.next (.getSymbol _ _ (some 0) (some [0x66]) (some 5) [] _ _ rfl)
  have h₅ := h₄.next (.addSource _ _ (some 0) (some [0x67]) true [] _ _ rfl)
  have h₆ := h₅.next (.free _ _ (some 0) [] _ rfl)
  obtain hnil | ⟨state, log, hsession, heq⟩ := (units_hold_sessions h₆).2.2 0 fun p unit hunit => by
    match p with
    | 0 => cases hunit
    | p + 1 => cases hunit
  · cases hnil
  · exact ⟨state, log, hsession, heq.symm⟩

end Runs

end Ak24.CjitModel
