import Ak24.InternCanonicity

namespace Ak24.InternLifecycle

open Objects InternModel InternCanonicity Transition

inductive Call
  | init (granted : Bool)
  | intern (str : Option (List UInt8)) (grants : Grants)
  | internN (str : Option (List UInt8)) (grants : Grants)
  | clear
  | shutdown
  | stats
  deriving DecidableEq, Repr

inductive Ret
  | done
  | ptr (p : Option Nat)
  | stats (count bytes : Nat)
  deriving DecidableEq, Repr

/-- The loop over the chains in `ak_intern_clear` and `ak_intern_shutdown`. `none`
is a free of memory that is not there. -/
def freeEntries : List Entry → Heap (List UInt8) → Option (Heap (List UInt8))
  | [], strings => some strings
  | e :: entries, strings =>
    match strings.cells e.str with
    | none => none
    | some _ => freeEntries entries (strings.free e.str)

def akInternShutdown (s : Store) : Option Store :=
  if !s.table.initialized then some s
  else (freeEntries s.table.buckets.flatten s.strings).map fun strings => ⟨⟨[], 0, 0, 0, false⟩, strings⟩

def internCall (s : Store) (str : Option (List UInt8)) (grants : Grants) : Option (Ret × Store) :=
  match str with
  | none => some (.ptr none, s)
  | some str =>
    if !s.table.initialized then some (.ptr none, s)
    else (internLocked s str (hashString str) grants).map fun r => (.ptr (r.1.map (·.str)), r.2)

def exec (s : Store) : Call → Option (Ret × Store)
  | .init granted => some (.done, { s with table := akInternInit s.table granted })
  | .intern str grants => internCall s (str.map fun str => str.takeWhile (· ≠ 0)) grants
  | .internN str grants => internCall s str grants
  | .clear =>
    if !s.table.initialized then some (.done, s)
    else (freeEntries s.table.buckets.flatten s.strings).map fun _ => (.done, akInternClear s)
  | .shutdown => (akInternShutdown s).map fun s => (.done, s)
  | .stats => some (.stats (akInternStats s.table).1 (akInternStats s.table).2, s)

def Step (s : Store) (events : List (Call × Ret)) (s' : Store) : Prop :=
  ∃ call ret, exec s call = some (ret, s') ∧ events = [(call, ret)]

/-- What interning is for: a pointer for each string, while the table is there. -/
structure Pool where
  ready : Bool
  ptrs : List UInt8 → Option Nat

def Pool.start : Pool := ⟨false, fun _ => none⟩

def asked : Call → Option (List UInt8)
  | .intern str _ => str.map fun str => str.takeWhile (· ≠ 0)
  | .internN str _ => str
  | _ => none

def Pool.intern (pool : Pool) (str : Option (List UInt8)) (p : Option Nat) : Pool :=
  match str, p with
  | some str, some p => { pool with ptrs := Function.update pool.ptrs str (some p) }
  | _, _ => pool

def meaning (pool : Pool) : Call × Ret → Pool
  | (.init granted, _) => if pool.ready then pool else ⟨granted, fun _ => none⟩
  | (.clear, _) => ⟨pool.ready, fun _ => none⟩
  | (.shutdown, _) => .start
  | (call, .ptr p) => pool.intern (asked call) p
  | _ => pool

def pool (trace : List (Call × Ret)) : Pool := trace.foldl meaning .start

def Pool.Counts (pool : Pool) (count bytes : Nat) : Prop :=
  ∃ strs : List (List UInt8), strs.Nodup ∧ (∀ str, str ∈ strs ↔ pool.ptrs str ≠ none) ∧ count = strs.length ∧
    bytes = (strs.map fun str => str.length + 1).sum

/-- A string that is there keeps its pointer; another one gets memory that is not
in use, or nothing when that is refused. -/
def Pool.Finds (pool : Pool) (strings : Heap (List UInt8)) (grants : Grants) (p : Option Nat) :
    Option (List UInt8) → Prop
  | none => p = none
  | some str =>
    if pool.ready = false then p = none
    else if pool.ptrs str ≠ none then p = pool.ptrs str
    else if grants.entry && grants.string then ∃ q, p = some q ∧ strings.cells q = none
    else p = none

def Pool.Answers (pool : Pool) (strings : Heap (List UInt8)) (call : Call) (ret : Ret) : Prop :=
  match call, ret with
  | .intern _ grants, .ptr p | .internN _ grants, .ptr p => pool.Finds strings grants p (asked call)
  | .stats, .stats count bytes => pool.Counts count bytes
  | .init _, .done | .clear, .done | .shutdown, .done => True
  | _, _ => False

structure Represents (base : Heap (List UInt8)) (pool : Pool) (s : Store) : Prop where
  store : StoreOk s
  ready : s.table.initialized = pool.ready
  off : pool.ready = false → s.table = .zero
  ptrs : ∀ str p, pool.ptrs str = some p ↔ ∃ e ∈ entries s, e.str = p ∧ text s.strings e = str
  new : ∀ e ∈ entries s, base.cells e.str = none
  rest : ∀ p, (∀ e ∈ entries s, e.str ≠ p) → s.strings.cells p = base.cells p

section Frees

variable {s : Store} {base strings : Heap (List UInt8)}

theorem freeEntries_spec {l : List Entry} (hnodup : (l.map (·.str)).Nodup)
    (hlive : ∀ e ∈ l, strings.cells e.str ≠ none) :
    ∃ strings', freeEntries l strings = some strings' ∧ l.foldl (fun strings e => strings.free e.str) strings = strings' ∧
      (∀ e ∈ l, strings'.cells e.str = none) ∧
      ∀ p, (∀ e ∈ l, e.str ≠ p) → strings'.cells p = strings.cells p := by
  induction l generalizing strings with
  | nil => exact ⟨strings, rfl, rfl, nofun, fun _ _ => rfl⟩
  | cons e l ih =>
      obtain ⟨hnew, hnodup⟩ := List.nodup_cons.mp hnodup
      have hother : ∀ e' ∈ l, e'.str ≠ e.str := fun e' he' heq => hnew (List.mem_map.mpr ⟨e', he', heq⟩)
      obtain ⟨bytes, hbytes⟩ := Option.ne_none_iff_exists'.mp (hlive e List.mem_cons_self)
      obtain ⟨strings', hfree, hfold, hgone, hrest⟩ := ih hnodup fun e' he' => by
        rw [Heap.free_of_ne (hother e' he')]
        exact hlive e' (List.mem_cons_of_mem e he')
      refine ⟨strings', ?_, hfold, ?_, ?_⟩
      · rw [freeEntries, hbytes]
        exact hfree
      · intro e' he'
        rcases List.mem_cons.mp he' with rfl | he'
        · rw [hrest _ hother, Heap.free_self]
        · exact hgone e' he'
      · intro p hp
        rw [hrest p fun e' he' => hp e' (List.mem_cons_of_mem e he'),
          Heap.free_of_ne (hp e List.mem_cons_self).symm]

theorem nodup_ptrs (h : StoreOk s) : ((entries s).map (·.str)).Nodup := by
  have htexts : texts s = ((entries s).map (·.str)).map fun p => ((s.strings.cells p).getD []).dropLast := by
    rw [texts, List.map_map]
    rfl
  have hdistinct := h.distinct
  rw [htexts] at hdistinct
  exact hdistinct.of_map

theorem Represents.frees {pool : Pool} (h : Represents base pool s) :
    ∃ strings, freeEntries (entries s) s.strings = some strings ∧
      (entries s).foldl (fun strings e => strings.free e.str) s.strings = strings ∧ strings.cells = base.cells := by
  obtain ⟨strings, hfree, hfold, hgone, hrest⟩ := freeEntries_spec (nodup_ptrs h.store) fun e he => by
    rw [(h.store.named e he).bytes]
    exact Option.some_ne_none _
  refine ⟨strings, hfree, hfold, funext fun p => ?_⟩
  by_cases hp : ∀ e ∈ entries s, e.str ≠ p
  · rw [hrest p hp, h.rest p hp]
  · push Not at hp
    obtain ⟨e, he, rfl⟩ := hp
    rw [hgone e he, h.new e he]

theorem represents_fresh (granted : Bool) (hcells : strings.cells = base.cells) :
    Represents base ⟨granted, fun _ => none⟩ ⟨akInternInit .zero granted, strings⟩ := by
  have hentries := entries_init granted strings
  refine ⟨storeOk_init granted strings, ?_, ?_, ?_, ?_, fun p _ => congrFun hcells p⟩
  · cases granted <;> rfl
  · rintro rfl
    rfl
  · intro str p
    rw [hentries]
    simp
  · rw [hentries]
    nofun

end Frees

section Calls

variable {s : Store} {base : Heap (List UInt8)} {pool : Pool} {str : List UInt8} {grants : Grants}

theorem Represents.entries_off (h : Represents base pool s) (hoff : pool.ready = false) : entries s = [] :=
  h.store.empty (h.ready.trans hoff)

theorem Represents.cells_off (h : Represents base pool s) (hoff : pool.ready = false) :
    s.strings.cells = base.cells := by
  refine funext fun p => h.rest p ?_
  rw [h.entries_off hoff]
  nofun

theorem Represents.off_start (h : Represents base pool s) (hoff : pool.ready = false) : Represents base .start s := by
  have hstore : s = ⟨akInternInit .zero false, s.strings⟩ := by
    rw [show akInternInit .zero false = s.table from (h.off hoff).symm]
  rw [hstore]
  exact represents_fresh false (h.cells_off hoff)

theorem Represents.ptrs_none (h : Represents base pool s) : pool.ptrs str = none ↔ str ∉ texts s := by
  rw [Option.eq_none_iff_forall_ne_some, texts, List.mem_map]
  constructor
  · rintro hnone ⟨e, he, htext⟩
    exact hnone e.str ((h.ptrs str e.str).mpr ⟨e, he, rfl, htext⟩)
  · intro hnot p hp
    obtain ⟨e, he, -, htext⟩ := (h.ptrs str p).mp hp
    exact hnot ⟨e, he, htext⟩

theorem Represents.withEntry {chain : List Entry} (h : Represents base pool s) (hready : pool.ready = true)
    (hget : s.table.buckets[bucketIdx s.table (hashString str)]? = some chain) (hnew : str ∉ texts s) :
    Represents base (pool.intern (some str) (some s.strings.next)) (withEntry s str chain) := by
  have hperm := entries_withEntry hget
  have hfresh : ∀ e ∈ entries s, e.str ≠ s.strings.next := by
    intro e he
    exact (s.strings.lt_next (h.store.named e he).bytes).ne
  refine ⟨storeOk_withEntry h.store hget (h.ready.trans hready) hnew, h.ready, ?_, ?_, ?_, ?_⟩
  · intro hoff
    cases hready.symm.trans hoff
  · intro str' p
    rw [Pool.intern]
    dsimp only
    rw [Function.update_apply]
    split_ifs with hsame
    · subst str'
      rw [Option.some.injEq]
      constructor
      · rintro rfl
        exact ⟨newEntry s str, hperm.mem_iff.mpr List.mem_cons_self, rfl, text_newEntry⟩
      · rintro ⟨e, he, rfl, htext⟩
        rcases List.mem_cons.mp (hperm.mem_iff.mp he) with rfl | he
        · rfl
        · rw [text_withEntry h.store he] at htext
          exact absurd (List.mem_map.mpr ⟨e, he, htext⟩) hnew
    · rw [h.ptrs str' p]
      constructor
      · rintro ⟨e, he, hp, htext⟩
        exact ⟨e, hperm.mem_iff.mpr (List.mem_cons_of_mem _ he), hp, (text_withEntry h.store he).trans htext⟩
      · rintro ⟨e, he, hp, htext⟩
        rcases List.mem_cons.mp (hperm.mem_iff.mp he) with rfl | he
        · rw [text_newEntry] at htext
          exact absurd htext.symm hsame
        · exact ⟨e, he, hp, (text_withEntry h.store he).symm.trans htext⟩
  · intro e he
    rcases List.mem_cons.mp (hperm.mem_iff.mp he) with rfl | he
    · exact (h.rest _ hfresh).symm.trans (s.strings.fresh _ le_rfl)
    · exact h.new e he
  · intro p hp
    have hp₁ := hp _ (hperm.mem_iff.mpr List.mem_cons_self)
    have hp₂ : ∀ e ∈ entries s, e.str ≠ p := fun e he => hp e (hperm.mem_iff.mpr (List.mem_cons_of_mem _ he))
    exact (Heap.alloc_of_ne (Ne.symm hp₁)).trans (h.rest p hp₂)

theorem Represents.found (h : Represents base pool s) {p : Option Nat} (hp : p = pool.ptrs str) : Represents base (pool.intern (some str) p) s := by
  have hsame : pool.intern (some str) p = pool := by
    subst hp
    cases hptr : pool.ptrs str with
    | none => rfl
    | some q => rw [Pool.intern, ← hptr, Function.update_eq_self]
  rw [hsame]
  exact h

theorem internLocked_finds (h : Represents base pool s) (hready : pool.ready = true) (str : List UInt8) (grants : Grants) :
    ∃ e s', internLocked s str (hashString str) grants = some (e, s') ∧
      pool.Finds s.strings grants (e.map (·.str)) (some str) ∧
      Represents base (pool.intern (some str) (e.map (·.str))) s' := by
  have hinit := h.ready.trans hready
  obtain ⟨r, hr, hfound, hmissing⟩ := findEntry_spec h.store hinit str
  rw [internLocked, hr]
  cases r with
  | some e =>
      obtain ⟨he, htext⟩ := hfound e rfl
      have hptr := (h.ptrs str e.str).mpr ⟨e, he, rfl, htext⟩
      refine ⟨some e, s, rfl, ?_, h.found hptr.symm⟩
      rw [Pool.Finds, if_neg (by simp [hready]), if_pos (by simp [hptr]), hptr]
      rfl
  | none =>
      have hnew := hmissing rfl
      have hptr : pool.ptrs str = none := h.ptrs_none.mpr hnew
      have hget := List.getElem?_eq_getElem (bucketIdx_lt h.store hinit (hashString str))
      have hfinds : ∀ p, pool.Finds s.strings grants p (some str) ↔
          if grants.entry && grants.string then ∃ q, p = some q ∧ s.strings.cells q = none else p = none := by
        intro p
        rw [Pool.Finds, if_neg (by simp [hready]), if_neg (not_not.mpr hptr)]
      dsimp only
      rw [createEntry, hget]
      split_ifs with hentry hstring
      · refine ⟨none, s, rfl, (hfinds _).mpr ?_, h⟩
        rw [if_neg (by simp_all)]
        rfl
      · refine ⟨none, s, rfl, (hfinds _).mpr ?_, h⟩
        rw [if_neg (by simp_all)]
        rfl
      · refine ⟨some (newEntry s str), withEntry s str _, rfl, (hfinds _).mpr ?_, h.withEntry hready hget hnew⟩
        rw [if_pos (by simp_all)]
        exact ⟨s.strings.next, rfl, s.strings.fresh _ le_rfl⟩

theorem internCall_ok (h : Represents base pool s) (str : Option (List UInt8)) (grants : Grants) :
    ∃ p s', internCall s str grants = some (.ptr p, s') ∧ pool.Finds s.strings grants p str ∧
      Represents base (pool.intern str p) s' := by
  cases str with
  | none => exact ⟨none, s, rfl, rfl, h⟩
  | some str =>
      rw [internCall]
      cases hready : pool.ready with
      | false =>
          have hinit := h.ready.trans hready
          rw [if_pos (by simp [hinit])]
          refine ⟨none, s, rfl, ?_, h⟩
          rw [Pool.Finds, if_pos hready]
      | true =>
          have hinit := h.ready.trans hready
          rw [if_neg (by simp [hinit])]
          obtain ⟨e, s', hlocked, hfinds, hrep⟩ := internLocked_finds h hready str grants
          rw [hlocked]
          exact ⟨_, s', rfl, hfinds, hrep⟩

theorem Represents.stats (h : Represents base pool s) :
    pool.Counts (akInternStats s.table).1 (akInternStats s.table).2 := by
  have hmem : ∀ str, str ∈ texts s ↔ pool.ptrs str ≠ none := fun str => by
    rw [ne_eq, h.ptrs_none, not_not]
  refine ⟨texts s, h.store.distinct, hmem, ?_⟩
  have hcount : (texts s).length = (entries s).length := List.length_map _
  have hbytes : ((texts s).map fun str => str.length + 1) = (entries s).map fun e => e.len + 1 := by
    rw [texts, List.map_map]
    refine List.map_congr_left fun e he => ?_
    rw [(h.store.named e he).len]
    rfl
  rw [akInternStats, hcount, hbytes]
  split_ifs with hinit
  · rw [h.store.empty (by simpa using hinit)]
    exact ⟨rfl, rfl⟩
  · exact ⟨h.store.count, h.store.bytes⟩

/-- Every call works on memory that is there, answers as the pool says and
changes the table as the pool. -/
theorem exec_ok (h : Represents base pool s) (call : Call) :
    ∃ ret s', exec s call = some (ret, s') ∧ pool.Answers s.strings call ret ∧
      Represents base (meaning pool (call, ret)) s' := by
  cases call with
  | init granted =>
      refine ⟨.done, _, rfl, trivial, ?_⟩
      rw [meaning]
      cases hready : pool.ready with
      | false =>
          rw [if_neg Bool.false_ne_true, h.off hready]
          exact represents_fresh granted (h.cells_off hready)
      | true =>
          rw [if_pos rfl, akInternInit, if_pos (h.ready.trans hready)]
          exact h
  | intern str grants =>
      obtain ⟨p, s', hcall, hfinds, hrep⟩ := internCall_ok h (str.map fun str => str.takeWhile (· ≠ 0)) grants
      exact ⟨.ptr p, s', hcall, hfinds, hrep⟩
  | internN str grants =>
      obtain ⟨p, s', hcall, hfinds, hrep⟩ := internCall_ok h str grants
      exact ⟨.ptr p, s', hcall, hfinds, hrep⟩
  | clear =>
      obtain ⟨strings, hfree, hfold, hcells⟩ := h.frees
      rw [exec]
      cases hready : pool.ready with
      | false =>
          have hinit := h.ready.trans hready
          rw [if_pos (by simp [hinit])]
          refine ⟨.done, s, rfl, trivial, ?_⟩
          rw [meaning, hready]
          exact h.off_start hready
      | true =>
          have hinit := h.ready.trans hready
          rw [if_neg (by simp [hinit]), ← entries, hfree]
          refine ⟨.done, _, rfl, trivial, ?_⟩
          have hclear : akInternClear s = ⟨akInternInit .zero true, strings⟩ := by
            rw [← akInternClear_fresh h.store hinit, ← hfold, akInternClear, if_neg (by simp [hinit])]
            rfl
          rw [hclear, meaning, hready]
          exact represents_fresh true hcells
  | shutdown =>
      obtain ⟨strings, hfree, -, hcells⟩ := h.frees
      rw [exec, akInternShutdown]
      cases hready : pool.ready with
      | false =>
          have hinit := h.ready.trans hready
          rw [if_pos (by simp [hinit])]
          exact ⟨.done, s, rfl, trivial, h.off_start hready⟩
      | true =>
          have hinit := h.ready.trans hready
          rw [if_neg (by simp [hinit]), ← entries, hfree]
          exact ⟨.done, _, rfl, trivial, represents_fresh false hcells⟩
  | stats => exact ⟨_, s, rfl, h.stats, h⟩

theorem represents_of_run {trace : List (Call × Ret)} (hrun : Run Step ⟨.zero, base⟩ trace s) :
    Represents base (InternLifecycle.pool trace) s := by
  apply hrun.invariant (P := fun trace s => Represents base (InternLifecycle.pool trace) s)
  · exact represents_fresh false rfl
  · rintro trace s events s' h ⟨call, ret, hexec, rfl⟩
    obtain ⟨ret', s'', hexec', -, hrep⟩ := exec_ok h call
    rw [hexec] at hexec'
    cases hexec'
    rw [InternLifecycle.pool, List.foldl_append]
    exact hrep

end Calls

/-- Over the whole life of the table, with its clears, its shutdowns and the
allocations that fail, no call uses or frees memory that is gone, and the answers
are those of a pool of pointers: one for each string, whose memory holds the string,
and none of the memory that was there before has changed. -/
theorem intern_lifecycle (base : Heap (List UInt8)) (trace : List (Call × Ret)) (s : Store)
    (hrun : Run Step ⟨.zero, base⟩ trace s) :
    (∀ call, ∃ ret s', exec s call = some (ret, s') ∧ (pool trace).Answers s.strings call ret) ∧
    (∀ str str' p, (pool trace).ptrs str = some p → (pool trace).ptrs str' = some p → str = str') ∧
    (∀ str p, (pool trace).ptrs str = some p → s.strings.cells p = some (str ++ [0])) ∧
    ∀ p, (∀ str, (pool trace).ptrs str ≠ some p) → s.strings.cells p = base.cells p := by
  have h := represents_of_run hrun
  refine ⟨fun call => ?_, fun str str' p hstr hstr' => ?_, fun str p hstr => ?_, fun p hp => ?_⟩
  · obtain ⟨ret, s', hexec, hanswers, -⟩ := exec_ok h call
    exact ⟨ret, s', hexec, hanswers⟩
  · obtain ⟨e, he, rfl, rfl⟩ := (h.ptrs str p).mp hstr
    obtain ⟨e', he', hp, rfl⟩ := (h.ptrs str' e.str).mp hstr'
    rw [text, text, hp]
  · obtain ⟨e, he, rfl, rfl⟩ := (h.ptrs str p).mp hstr
    exact (h.store.named e he).bytes
  · refine h.rest p fun e he hptr => hp (text s.strings e) ?_
    exact (h.ptrs _ p).mpr ⟨e, he, hptr, rfl⟩

def next (s : Store) (call : Call) : Option (List (Call × Ret) × Store) :=
  (exec s call).map fun r => ([(call, r.1)], r.2)

theorem next_step (s : Store) (call : Call) (events : List (Call × Ret)) (s' : Store)
    (h : next s call = some (events, s')) : Step s events s' := by
  obtain ⟨⟨ret, s''⟩, hexec, heq⟩ := Option.map_eq_some_iff.mp h
  cases heq
  exact ⟨call, ret, hexec, rfl⟩

/-- A string is interned, cleared, interned again at another place and dropped with the table. -/
theorem intern_lifecycle_again : ∃ trace s, Run Step ⟨.zero, Heap.empty (List UInt8)⟩ trace s ∧
    trace.map Prod.snd = [.done, .ptr (some 0), .ptr (some 0), .done, .ptr (some 1), .stats 1 2, .done, .ptr none] ∧
    ∀ p, s.strings.cells p = none := by
  let ask : Call := .intern (some [97, 0]) ⟨true, true⟩
  let calls := [.init true, ask, .internN (some [97]) ⟨true, true⟩, .clear, ask, .stats, .shutdown, ask]
  have hscript : (script next ([], ⟨.zero, Heap.empty (List UInt8)⟩) calls).map Prod.fst =
      some (calls.zip [.done, .ptr (some 0), .ptr (some 0), .done, .ptr (some 1), .stats 1 2, .done, .ptr none]) := by
    decide +kernel
  obtain ⟨⟨trace, s⟩, hr, htrace⟩ := Option.map_eq_some_iff.mp hscript
  have hrun := Run.script (r := (trace, s)) .start next_step calls hr
  dsimp only at htrace
  subst htrace
  exact ⟨_, s, hrun, rfl, fun p => (intern_lifecycle _ _ s hrun).2.2.2 p (fun str => nofun)⟩

end Ak24.InternLifecycle
