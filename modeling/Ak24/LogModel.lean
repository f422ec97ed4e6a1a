import Ak24.Monitors

namespace Ak24.LogModel

open Monitors Transition

variable {ι F U : Type}

inductive LogLevel
  | trace
  | debug
  | info
  | warn
  | error
  | fatal
  deriving DecidableEq, Repr

def LogLevel.severity : LogLevel → Nat
  | .trace => 0
  | .debug => 1
  | .info => 2
  | .warn => 3
  | .error => 4
  | .fatal => 5

instance : LE LogLevel := ⟨fun a b => a.severity ≤ b.severity⟩

instance (a b : LogLevel) : Decidable (a ≤ b) := inferInstanceAs (Decidable (_ ≤ _))

def akLogLevelString : LogLevel → String
  | .trace => "TRACE"
  | .debug => "DEBUG"
  | .info => "INFO"
  | .warn => "WARN"
  | .error => "ERROR"
  | .fatal => "FATAL"

def levelColor : LogLevel → String
  | .trace => "\x1b[94m"
  | .debug => "\x1b[36m"
  | .info => "\x1b[32m"
  | .warn => "\x1b[33m"
  | .error => "\x1b[31m"
  | .fatal => "\x1b[35m"

inductive LogPathFormat
  | full
  | abbreviated
  deriving DecidableEq, Repr

structure LogTime where
  clock : String
  date : String
  deriving DecidableEq, Repr

structure LogEvent where
  message : String
  file : List Char
  time : LogTime
  line : Nat
  level : LogLevel
  deriving DecidableEq, Repr

inductive LogFn (F : Type)
  | file
  | user (f : F)
  deriving DecidableEq, Repr

structure Callback (F U : Type) where
  fn : LogFn F
  udata : U
  level : LogLevel
  deriving DecidableEq, Repr

structure Logger (F U : Type) where
  level : LogLevel
  quiet : Bool
  useColor : Bool
  pathFormat : LogPathFormat
  callbacks : { table : List (Option (Callback F U)) // table.length = 32 }

def Logger.initial : Logger F U :=
  ⟨.trace, false, false, .full, ⟨List.replicate 32 none, List.length_replicate⟩⟩

section Settings

variable (L : Logger F U)

def akLogSetLevel (level : LogLevel) : Logger F U := { L with level }

def akLogSetQuiet (enable : Bool) : Logger F U := { L with quiet := enable }

def akLogSetColor (enable : Bool) : Logger F U := { L with useColor := enable }

def akLogSetPathFormat (format : LogPathFormat) : Logger F U := { L with pathFormat := format }

def freePlace (table : List (Option (Callback F U))) : Nat := table.findIdx Option.isNone

def akLogAddCallback (fn : Option (LogFn F)) (udata : U) (level : LogLevel) : Int × Logger F U :=
  if freePlace L.callbacks.1 < 32 then
    (0, { L with
      callbacks := ⟨L.callbacks.1.set (freePlace L.callbacks.1) (fn.map (⟨·, udata, level⟩)),
        List.length_set.trans L.callbacks.2⟩ })
  else (-1, L)

def akLogAddFp (fp : U) (level : LogLevel) : Int × Logger F U := akLogAddCallback L (some .file) fp level

def formatFilePath (file : List Char) : List Char :=
  if L.pathFormat = .abbreviated ∧ '/' ∈ file then (file.reverse.takeWhile (· ≠ '/')).reverse else file

end Settings

inductive Write (F U : Type)
  | text (stream : U) (s : String)
  | invoke (f : F) (udata : U) (ev : LogEvent)
  deriving DecidableEq, Repr

def Write.sink : Write F U → U
  | .text stream _ => stream
  | .invoke _ udata _ => udata

section Lines

variable (L : Logger F U) (ev : LogEvent)

def padded (s : String) : String := s ++ String.ofList (List.replicate (5 - s.length) ' ')

def fileAndLine : String := String.ofList (formatFilePath L ev.file) ++ ":" ++ toString ev.line ++ ":"

def stdoutHead : String :=
  if L.useColor then
    ev.time.clock ++ " " ++ levelColor ev.level ++ padded (akLogLevelString ev.level) ++ "\x1b[0m \x1b[90m" ++
      fileAndLine L ev ++ "\x1b[0m "
  else ev.time.clock ++ " " ++ padded (akLogLevelString ev.level) ++ " " ++ fileAndLine L ev ++ " "

def fileHead : String :=
  ev.time.date ++ " " ++ padded (akLogLevelString ev.level) ++ " " ++ fileAndLine L ev ++ " "

def stdoutCallback (stream : U) : List (Write F U) :=
  [.text stream (stdoutHead L ev), .text stream ev.message, .text stream "\n"]

def fileCallback (stream : U) : List (Write F U) :=
  [.text stream (fileHead L ev), .text stream ev.message, .text stream "\n"]

def Callback.writes (cb : Callback F U) : List (Write F U) :=
  match cb.fn with
  | .file => fileCallback L ev cb.udata
  | .user f => [.invoke f cb.udata ev]

end Lines

structure Logs (F U : Type) where
  logger : Logger F U
  out : List (Write F U)

/-- Where `ak_log_log` is between the lock and the unlock: before the terminal,
or with the writes of a callback before it and the next callback after them. -/
inductive LogLocals (F U : Type)
  | terminal (ev : LogEvent)
  | callback (pending : List (Write F U)) (next : Nat) (ev : LogEvent)

def step (stderr : U) (s : Logs F U) : LogLocals F U → (Logs F U × LogLocals F U) ⊕ Unit
  | .terminal ev =>
    if s.logger.quiet = false ∧ s.logger.level ≤ ev.level then
      .inl (s, .callback (stdoutCallback s.logger ev stderr) 0 ev)
    else .inl (s, .callback [] 0 ev)
  | .callback (w :: pending) next ev => .inl ({ s with out := s.out ++ [w] }, .callback pending next ev)
  | .callback [] next ev =>
    match s.logger.callbacks.1[next]? with
    | some (some cb) =>
      if cb.level ≤ ev.level then .inl (s, .callback (cb.writes s.logger ev) (next + 1) ev)
      else .inl (s, .callback [] (next + 1) ev)
    | _ => .inr ()

def akLogLog (stderr : U) : Monitor (Logs F U) LogEvent (LogLocals F U) Unit := ⟨.terminal, step stderr⟩

section Sequential

variable {stderr : U} {L : Logger F U} {ev : LogEvent} {out : List (Write F U)} {s s' : Logs F U} {r : Unit}

def terminalWrites (stderr : U) (L : Logger F U) (ev : LogEvent) : List (Write F U) :=
  if L.quiet = false ∧ L.level ≤ ev.level then stdoutCallback L ev stderr else []

def callbackWrites (L : Logger F U) (ev : LogEvent) : List (Option (Callback F U)) → List (Write F U)
  | some cb :: table => (if cb.level ≤ ev.level then cb.writes L ev else []) ++ callbackWrites L ev table
  | none :: _ => []
  | [] => []

def writes (stderr : U) (L : Logger F U) (ev : LogEvent) : List (Write F U) :=
  terminalWrites stderr L ev ++ callbackWrites L ev L.callbacks.1

theorem finishes_pending (pending : List (Write F U)) {next : Nat}
    (h : (akLogLog stderr).Finishes (⟨L, out⟩, .callback pending next ev) r s') :
    (akLogLog stderr).Finishes (⟨L, out ++ pending⟩, .callback [] next ev) r s' := by
  induction pending generalizing out with
  | nil =>
      rw [List.append_nil]
      exact h
  | cons w pending ih =>
      have hnext := ih (Monitor.Finishes.inl rfl h)
      rwa [List.append_assoc] at hnext

theorem finishes_callbacks (table : List (Option (Callback F U))) {next : Nat}
    (htable : L.callbacks.1.drop next = table)
    (h : (akLogLog stderr).Finishes (⟨L, out⟩, .callback [] next ev) r s') :
    s' = ⟨L, out ++ callbackWrites L ev table⟩ := by
  induction table generalizing out next with
  | nil =>
      have hend : L.callbacks.1[next]? = none := by
        rw [← List.head?_drop, htable]
        rfl
      have hleave : (akLogLog stderr).step ⟨L, out⟩ (.callback [] next ev) = .inr () := by
        simp only [akLogLog, step, hend]
      rw [(Monitor.Finishes.inr hleave h).2, callbackWrites, List.append_nil]
  | cons place table ih =>
      have hplace : L.callbacks.1[next]? = some place := by rw [← List.head?_drop, htable, List.head?_cons]
      have hrest : L.callbacks.1.drop (next + 1) = table := by
        rw [← List.tail_drop, htable, List.tail_cons]
      cases place with
      | none =>
          have hleave : (akLogLog stderr).step ⟨L, out⟩ (.callback [] next ev) = .inr () := by
            simp only [akLogLog, step, hplace]
          rw [(Monitor.Finishes.inr hleave h).2, callbackWrites, List.append_nil]
      | some cb =>
          rw [callbackWrites]
          by_cases hlevel : cb.level ≤ ev.level
          · have hwrite : (akLogLog stderr).step ⟨L, out⟩ (.callback [] next ev) =
                .inl (⟨L, out⟩, .callback (cb.writes L ev) (next + 1) ev) := by
              simp only [akLogLog, step, hplace, if_pos hlevel]
            rw [if_pos hlevel, ih hrest (finishes_pending _ (h.inl hwrite)), List.append_assoc]
          · have hskip : (akLogLog stderr).step ⟨L, out⟩ (.callback [] next ev) =
                .inl (⟨L, out⟩, .callback [] (next + 1) ev) := by
              simp only [akLogLog, step, hplace, if_neg hlevel]
            rw [if_neg hlevel, ih hrest (h.inl hskip), List.nil_append]

/-- A call writes to the terminal and then to each callback for its level. -/
theorem akLogLog_does (h : (akLogLog stderr).Does ev s r s') :
    s' = { s with out := s.out ++ writes stderr s.logger ev } := by
  obtain ⟨L, out⟩ := s
  rw [writes, terminalWrites]
  by_cases hterminal : L.quiet = false ∧ L.level ≤ ev.level
  · have hfirst : (akLogLog stderr).step ⟨L, out⟩ (.terminal ev) =
        .inl (⟨L, out⟩, .callback (stdoutCallback L ev stderr) 0 ev) := if_pos hterminal
    rw [if_pos hterminal, finishes_callbacks _ List.drop_zero (finishes_pending _ (Monitor.Finishes.inl hfirst h)),
      List.append_assoc]
  · have hfirst : (akLogLog stderr).step ⟨L, out⟩ (.terminal ev) = .inl (⟨L, out⟩, .callback [] 0 ev) :=
      if_neg hterminal
    rw [if_neg hterminal, finishes_callbacks _ List.drop_zero (Monitor.Finishes.inl hfirst h), List.nil_append]

theorem history_writes {log : List (ι × LogEvent × Unit)} (h : History (akLogLog stderr).Does ⟨L, []⟩ log s) :
    s = ⟨L, (log.map fun e => e.2.1).flatMap (writes stderr L)⟩ := by
  induction h with
  | nil => rfl
  | @snoc log s s' ev r i _ hdoes ih =>
      rw [akLogLog_does hdoes, ih, List.map_append, List.flatMap_append]
      simp

end Sequential

section Registration

inductive Setup (F U : Type)
  | setLevel (level : LogLevel)
  | setQuiet (enable : Bool)
  | setColor (enable : Bool)
  | setPathFormat (format : LogPathFormat)
  | addCallback (fn : Option (LogFn F)) (udata : U) (level : LogLevel)
  | addFp (fp : U) (level : LogLevel)
  deriving DecidableEq, Repr

def setUp (L : Logger F U) : Setup F U → Logger F U
  | .setLevel level => akLogSetLevel L level
  | .setQuiet enable => akLogSetQuiet L enable
  | .setColor enable => akLogSetColor L enable
  | .setPathFormat format => akLogSetPathFormat L format
  | .addCallback fn udata level => (akLogAddCallback L fn udata level).2
  | .addFp fp level => (akLogAddFp L fp level).2

def Setup.callback : Setup F U → Option (Callback F U)
  | .addCallback fn udata level => fn.map fun fn => ⟨fn, udata, level⟩
  | .addFp fp level => some ⟨.file, fp, level⟩
  | .setLevel _ | .setQuiet _ | .setColor _ | .setPathFormat _ => none

def configure (L : Logger F U) (setups : List (Setup F U)) : Logger F U := setups.foldl setUp L

def Holds (L : Logger F U) (cbs : List (Callback F U)) : Prop :=
  cbs.length ≤ 32 ∧ L.callbacks.1 = cbs.map some ++ List.replicate (32 - cbs.length) none

variable {L : Logger F U} {cbs : List (Callback F U)}

theorem holds_initial : Holds (Logger.initial : Logger F U) [] := ⟨Nat.zero_le _, rfl⟩

theorem freePlace_holds (h : Holds L cbs) : freePlace L.callbacks.1 = cbs.length := by
  rw [h.2, freePlace]
  generalize 32 - cbs.length = n
  clear h
  induction cbs with
  | nil => cases n <;> rfl
  | cons cb cbs ih =>
      rw [List.map_cons, List.cons_append, List.findIdx_cons, ih]
      rfl

theorem addCallback_holds (h : Holds L cbs) (fn : Option (LogFn F)) (udata : U) (level : LogLevel) :
    (akLogAddCallback L fn udata level).1 = (if cbs.length < 32 then 0 else -1) ∧
      Holds (akLogAddCallback L fn udata level).2 ((cbs ++ (Setup.addCallback fn udata level).callback.toList).take 32) := by
  have hplace := freePlace_holds h
  rw [akLogAddCallback]
  by_cases hfree : cbs.length < 32
  · rw [if_pos (hplace.symm ▸ hfree), if_pos hfree]
    obtain ⟨n, hn⟩ : ∃ n, 32 - cbs.length = n + 1 := ⟨31 - cbs.length, by omega⟩
    have hset (place : Option (Callback F U)) :
        L.callbacks.1.set (freePlace L.callbacks.1) place = cbs.map some ++ place :: List.replicate n none := by
      rw [hplace, h.2, hn, List.replicate_succ, List.set_append_right _ _ (by rw [List.length_map]), List.length_map,
        Nat.sub_self, List.set_cons_zero]
    refine ⟨rfl, ?_, ?_⟩
    · rw [List.length_take]
      exact Nat.min_le_left _ _
    · cases fn with
      | none =>
          have hsame : (cbs ++ (Setup.addCallback none udata level : Setup F U).callback.toList).take 32 = cbs := by
            rw [Setup.callback, Option.map_none, Option.toList_none, List.append_nil, List.take_of_length_le h.1]
          rw [hsame, hn, List.replicate_succ]
          exact hset none
      | some fn =>
          have hmore : (cbs ++ (Setup.addCallback (some fn) udata level).callback.toList).take 32 =
              cbs ++ [⟨fn, udata, level⟩] :=
            List.take_of_length_le (by rw [List.length_append]; exact hfree)
          have hrest : 32 - (cbs ++ [(⟨fn, udata, level⟩ : Callback F U)]).length = n := by
            rw [List.length_append, List.length_singleton]
            omega
          rw [hmore, hrest, List.map_append, List.append_assoc]
          exact hset (some ⟨fn, udata, level⟩)
  · rw [if_neg (hplace.symm ▸ hfree), if_neg hfree]
    have hfull (more : List (Callback F U)) : (cbs ++ more).take 32 = cbs := by
      have hlen : cbs.length = 32 := le_antisymm h.1 (Nat.le_of_not_lt hfree)
      rw [List.take_append_of_le_length (Nat.le_of_eq hlen.symm), List.take_of_length_le h.1]
    rw [hfull]
    exact ⟨rfl, h⟩

theorem take_take_append {α : Type} (n : Nat) (l more : List α) : (l.take n ++ more).take n = (l ++ more).take n := by
  rcases le_total n l.length with hle | hle
  · rw [List.take_append_of_le_length (by rw [List.length_take]; omega), List.take_take, Nat.min_self,
      List.take_append_of_le_length hle]
  · rw [List.take_of_length_le hle]

theorem setUp_holds (h : Holds L cbs) (setup : Setup F U) :
    Holds (setUp L setup) ((cbs ++ setup.callback.toList).take 32) := by
  have hsame : (cbs ++ (none : Option (Callback F U)).toList).take 32 = cbs := by
    rw [Option.toList_none, List.append_nil, List.take_of_length_le h.1]
  cases setup with
  | setLevel | setQuiet | setColor | setPathFormat =>
      rw [Setup.callback, hsame]
      exact h
  | addCallback fn udata level => exact (addCallback_holds h fn udata level).2
  | addFp fp level => exact (addCallback_holds h (some .file) fp level).2

theorem configure_holds (h : Holds L cbs) (setups : List (Setup F U)) :
    Holds (configure L setups) ((cbs ++ setups.filterMap Setup.callback).take 32) := by
  induction setups generalizing L cbs with
  | nil =>
      rw [List.filterMap_nil, List.append_nil, List.take_of_length_le h.1]
      exact h
  | cons setup setups ih =>
      have hrest := ih (setUp_holds h setup)
      rw [take_take_append] at hrest
      have hcons : (setup :: setups).filterMap Setup.callback =
          setup.callback.toList ++ setups.filterMap Setup.callback := by
        cases hsetup : setup.callback <;> simp [hsetup]
      rw [hcons, ← List.append_assoc]
      exact hrest

theorem callbackWrites_holds (ev : LogEvent) (cbs : List (Callback F U)) (n : Nat) :
    callbackWrites L ev (cbs.map some ++ List.replicate n none) =
      cbs.flatMap fun cb => if cb.level ≤ ev.level then cb.writes L ev else [] := by
  induction cbs with
  | nil => cases n <;> rfl
  | cons cb cbs ih => rw [List.map_cons, List.cons_append, callbackWrites, ih, List.flatMap_cons]

end Registration

section Runs

variable [DecidableEq ι] [DecidableEq U] {stderr : U} {L : Logger F U} {trace : List (Event ι LogEvent Unit)}
  {s : System ι (Logs F U) LogEvent (LogLocals F U) Unit}

def logged (trace : List (Event ι LogEvent Unit)) : List LogEvent := (trace.filterMap called).map Prod.snd

omit [DecidableEq U] in
theorem sink_writes (cb : Callback F U) (ev : LogEvent) : ∀ w ∈ cb.writes L ev, w.sink = cb.udata := by
  obtain ⟨_ | f, udata, level⟩ := cb <;> simp [Callback.writes, fileCallback, Write.sink]

theorem filter_callback (cb : Callback F U) (ev : LogEvent) (u : U) :
    (if cb.level ≤ ev.level then cb.writes L ev else []).filter (fun w => w.sink = u) =
      if cb.udata = u ∧ cb.level ≤ ev.level then cb.writes L ev else [] := by
  by_cases hlevel : cb.level ≤ ev.level
  · rw [if_pos hlevel]
    by_cases hu : cb.udata = u
    · rw [if_pos ⟨hu, hlevel⟩, List.filter_eq_self.mpr]
      exact fun w hw => decide_eq_true ((sink_writes cb ev w hw).trans hu)
    · rw [if_neg (fun h => hu h.1), List.filter_eq_nil_iff.mpr]
      intro w hw
      rw [decide_eq_true_eq, sink_writes cb ev w hw]
      exact hu
  · rw [if_neg hlevel, if_neg (fun h => hlevel h.2), List.filter_nil]

theorem filter_others (ev : LogEvent) (cbs : List (Callback F U)) {u : U} (hothers : ∀ c ∈ cbs, c.udata ≠ u) :
    (cbs.flatMap fun c => if c.level ≤ ev.level then c.writes L ev else []).filter (fun w => w.sink = u) = [] := by
  rw [List.filter_flatMap, List.flatMap_eq_nil_iff]
  intro c hc
  rw [filter_callback, if_neg (fun h => hothers c hc h.1)]

theorem filter_writes {pre post : List (Callback F U)} {cb : Callback F U} (hL : Holds L (pre ++ cb :: post))
    (hu : cb.udata ≠ stderr) (hothers : ∀ c ∈ pre ++ post, c.udata ≠ cb.udata) (ev : LogEvent) :
    (writes stderr L ev).filter (fun w => w.sink = cb.udata) =
      if cb.level ≤ ev.level then cb.writes L ev else [] := by
  have hterminal : (terminalWrites stderr L ev).filter (fun w => w.sink = cb.udata) = [] := by
    rw [terminalWrites]
    split_ifs
    · simp [stdoutCallback, Write.sink, Ne.symm hu]
    · rfl
  rw [writes, hL.2, callbackWrites_holds, List.flatMap_append, List.flatMap_cons, List.filter_append, hterminal,
    List.filter_append, filter_others ev pre fun c hc => hothers c (List.mem_append_left _ hc), List.filter_append,
    filter_others ev post fun c hc => hothers c (List.mem_append_right _ hc), filter_callback]
  simp

/-- However the calls of `ak_log_log` fall together, what they write is written
call by call, in one order for all callbacks: first the terminal, then the first
32 callbacks in the order in which they were added, each by its level. A stream
that belongs to one callback holds the whole lines of the calls for its level. -/
theorem log_serial (stderr : U) (hL : Holds L []) (setups : List (Setup F U))
    (hrun : Run (akLogLog stderr).Step (System.start ⟨configure L setups, []⟩) trace s) (hquiet : s.Quiet) :
    ∃ order, (logged trace).Perm order ∧
      s.shared.out = order.flatMap (fun ev => terminalWrites stderr (configure L setups) ev ++
        ((setups.filterMap Setup.callback).take 32).flatMap fun cb =>
          if cb.level ≤ ev.level then cb.writes (configure L setups) ev else []) ∧
      ∀ pre cb post, (setups.filterMap Setup.callback).take 32 = pre ++ cb :: post → cb.udata ≠ stderr →
        (∀ c ∈ pre ++ post, c.udata ≠ cb.udata) →
        s.shared.out.filter (fun w => w.sink = cb.udata) =
          (order.filter fun ev => cb.level ≤ ev.level).flatMap (cb.writes (configure L setups)) := by
  obtain ⟨log, hhistory, hcalls, -⟩ := run_history hrun hquiet
  have hholds := configure_holds hL setups
  rw [List.nil_append] at hholds
  rw [history_writes hhistory]
  refine ⟨log.map fun e => e.2.1, ?_, ?_, ?_⟩
  · refine (hcalls.map Prod.snd).trans ?_
    rw [List.map_map]
    exact List.Perm.refl _
  · have hwrites : writes stderr (configure L setups) = fun ev => terminalWrites stderr (configure L setups) ev ++
        ((setups.filterMap Setup.callback).take 32).flatMap fun cb =>
          if cb.level ≤ ev.level then cb.writes (configure L setups) ev else [] := by
      funext ev
      rw [writes, hholds.2, callbackWrites_holds]
    rw [hwrites]
  · intro pre cb post hsplit hu hothers
    rw [hsplit] at hholds
    generalize (log.map fun e => e.2.1) = order
    induction order with
    | nil => rfl
    | cons ev order ih =>
        rw [List.flatMap_cons, List.filter_append, ih, filter_writes hholds hu hothers, List.filter_cons]
        by_cases hlevel : cb.level ≤ ev.level
        · rw [if_pos hlevel, if_pos (decide_eq_true hlevel), List.flatMap_cons]
        · rw [if_neg hlevel, if_neg (by rwa [decide_eq_true_eq]), List.nil_append]

def noon : LogEvent := ⟨"noon", "clock.c".toList, ⟨"12:00:00", "2025-01-01 12:00:00"⟩, 7, .warn⟩

def noonLogger : Logger Unit Nat := configure Logger.initial [.setQuiet true, .addFp 1 .info]

/-- Two threads log the same event to a file, the one after the other. -/
theorem log_serial_noon : ∃ trace s,
    Run (akLogLog 0).Step
      (System.start ⟨noonLogger, []⟩ : System Bool (Logs Unit Nat) LogEvent (LogLocals Unit Nat) Unit) trace s ∧
    logged trace = [noon, noon] ∧ ∃ order, (logged trace).Perm order ∧
      s.shared.out.filter (fun w => w.sink = 1) = (order.filter fun ev => .info ≤ ev.level).flatMap
        (Callback.writes noonLogger · ⟨.file, 1, .info⟩) := by
  have r₁ : Run (akLogLog 0).Step
      (System.start ⟨noonLogger, []⟩ : System Bool (Logs Unit Nat) LogEvent (LogLocals Unit Nat) Unit) _ _ :=
    Run.next .start (.call _ true noon rfl)
  have r₂ := r₁.next (.lock _ true noon rfl (by rintro (_ | _) <;> exact id))
  have r₃ := (r₂.next (.call _ false noon rfl)).next (.work _ true _ _ _ _ rfl rfl)
  have r₄ := (r₃.next (.work _ true _ _ _ _ rfl rfl)).next (.work _ true _ _ _ _ rfl rfl)
  have r₅ := (r₄.next (.work _ true _ _ _ _ rfl rfl)).next (.work _ true _ _ _ _ rfl rfl)
  have r₆ := (r₅.next (.unlock _ true _ _ _ rfl rfl)).next (.return _ true _ rfl)
  have r₇ := r₆.next (.lock _ false noon rfl (by rintro (_ | _) <;> exact id))
  have r₈ := (r₇.next (.work _ false _ _ _ _ rfl rfl)).next (.work _ false _ _ _ _ rfl rfl)
  have r₉ := (r₈.next (.work _ false _ _ _ _ rfl rfl)).next (.work _ false _ _ _ _ rfl rfl)
  have r₁₀ := (r₉.next (.work _ false _ _ _ _ rfl rfl)).next (.unlock _ false _ _ _ rfl rfl)
  have r₁₁ := r₁₀.next (.return _ false _ rfl)
  obtain ⟨order, hperm, -, hsink⟩ :=
    log_serial 0 holds_initial [.setQuiet true, .addFp 1 .info] r₁₁ (by rintro (_ | _) <;> rfl)
  exact ⟨_, _, r₁₁, rfl, order, hperm, hsink [] ⟨.file, 1, .info⟩ [] rfl (by decide) (by simp)⟩

end Runs

end Ak24.LogModel
