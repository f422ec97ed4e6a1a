import Ak24.InternModel
import Ak24.Transition
import Ak24.Words

namespace Ak24.InternCanonicity

open Objects Buckets InternModel Transition

/-- What the memory behind an entry says, without the NUL. -/
def text (strings : Heap (List UInt8)) (e : Entry) : List UInt8 := ((strings.cells e.str).getD []).dropLast

def entries (s : Store) : List Entry := s.table.buckets.flatten

def texts (s : Store) : List (List UInt8) := (entries s).map (text s.strings)

structure EntryOk (strings : Heap (List UInt8)) (e : Entry) : Prop where
  bytes : strings.cells e.str = some (text strings e ++ [0])
  len : e.len = (text strings e).length
  hash : e.hash = hashString (text strings e)

/-- What holds of the table between two critical sections. -/
structure StoreOk (s : Store) : Prop where
  size : s.table.initialized = true → s.table.buckets.length = 1024 ∧ s.table.bucketCount = 1024#64
  empty : s.table.initialized = false → entries s = []
  home : ∀ i chain, s.table.buckets[i]? = some chain → ∀ e ∈ chain, i = bucketIdx s.table e.hash
  named : ∀ e ∈ entries s, EntryOk s.strings e
  distinct : (texts s).Nodup
  count : s.table.stringCount = (entries s).length
  bytes : s.table.totalBytes = ((entries s).map fun e => e.len + 1).sum

theorem entries_init (granted : Bool) (strings : Heap (List UInt8)) : entries ⟨akInternInit .zero granted, strings⟩ = [] := by
  cases granted
  · rfl
  · simp [entries, akInternInit, Table.zero]

theorem storeOk_init (granted : Bool) (strings : Heap (List UInt8)) : StoreOk ⟨akInternInit .zero granted, strings⟩ := by
  have hentries := entries_init granted strings
  refine ⟨?_, fun _ => hentries, ?_, ?_, ?_, ?_, ?_⟩
  · intro hinit
    cases granted
    · cases hinit
    · exact ⟨List.length_replicate, rfl⟩
  · intro i chain hchain e he
    have hmem : e ∈ entries ⟨akInternInit .zero granted, strings⟩ :=
      List.mem_flatten.mpr ⟨chain, List.mem_of_getElem? hchain, he⟩
    rw [hentries] at hmem
    cases hmem
  · rw [hentries]
    nofun
  · rw [texts, hentries]
    exact List.nodup_nil
  · rw [hentries]
    cases granted <;> rfl
  · rw [hentries]
    cases granted <;> rfl

section Sections

variable {s s' : Store} {str : List UInt8} {hash : BitVec 64}

theorem findIn_spec {strings : Heap (List UInt8)} (str : List UInt8) (chain : List Entry)
    (h : ∀ e ∈ chain, EntryOk strings e) :
    ∃ r, findIn strings str (hashString str) chain = some r ∧
      (∀ e, r = some e → e ∈ chain ∧ text strings e = str) ∧ (r = none → ∀ e ∈ chain, text strings e ≠ str) := by
  induction chain with
  | nil => exact ⟨none, rfl, nofun, nofun⟩
  | cons e chain ih =>
      obtain ⟨r, hr, hfound, hmissing⟩ := ih fun e' he' => h e' (List.mem_cons_of_mem e he')
      have hok := h e List.mem_cons_self
      simp only [findIn, hok.bytes]
      have hskip : text strings e ≠ str → ∃ r, findIn strings str (hashString str) chain = some r ∧
          (∀ e', r = some e' → e' ∈ e :: chain ∧ text strings e' = str) ∧
          (r = none → ∀ e' ∈ e :: chain, text strings e' ≠ str) := by
        intro hne
        refine ⟨r, hr, fun e' he' => ?_, fun hnone e' he' => ?_⟩
        · exact ⟨List.mem_cons_of_mem e (hfound e' he').1, (hfound e' he').2⟩
        · rcases List.mem_cons.mp he' with rfl | he'
          · exact hne
          · exact hmissing hnone e' he'
      split_ifs with hsame htake
      · refine ⟨some e, rfl, ?_, nofun⟩
        rintro _ ⟨⟩
        rw [← hsame.2, hok.len, List.take_left] at htake
        exact ⟨List.mem_cons_self, htake⟩
      · apply hskip
        rintro rfl
        simp at htake
      · apply hskip
        rintro rfl
        exact hsame ⟨hok.hash, hok.len⟩

theorem bucketIdx_lt (h : StoreOk s) (hinit : s.table.initialized = true) (hash : BitVec 64) :
    bucketIdx s.table hash < s.table.buckets.length := by
  obtain ⟨hlength, hcount⟩ := h.size hinit
  rw [hlength, bucketIdx, hcount, Words.and_mask_toNat (k := 10) (by decide)]
  exact Nat.mod_lt _ (by decide)

theorem findEntry_spec (h : StoreOk s) (hinit : s.table.initialized = true) (str : List UInt8) :
    ∃ r, findEntry s str (hashString str) = some r ∧
      (∀ e, r = some e → e ∈ entries s ∧ text s.strings e = str) ∧ (r = none → str ∉ texts s) := by
  have hget := List.getElem?_eq_getElem (bucketIdx_lt h hinit (hashString str))
  have hmem := List.mem_of_getElem? hget
  obtain ⟨r, hr, hfound, hmissing⟩ := findIn_spec str _ fun e he => h.named e (List.mem_flatten.mpr ⟨_, hmem, he⟩)
  refine ⟨r, ?_, fun e he => ?_, fun hnone hin => ?_⟩
  · rw [findEntry, hget]
    exact hr
  · exact ⟨List.mem_flatten.mpr ⟨_, hmem, (hfound e he).1⟩, (hfound e he).2⟩
  · obtain ⟨e, he, rfl⟩ := List.mem_map.mp hin
    obtain ⟨chain, hchain, hechain⟩ := mem_home (fun e => bucketIdx s.table e.hash) h.home he
    rw [(h.named e he).hash, hget] at hchain
    cases hchain
    exact hmissing hnone e hechain rfl

def Keeps (s s' : Store) : Prop := ∀ e ∈ entries s, e ∈ entries s' ∧ text s'.strings e = text s.strings e

structure LockedOk (s : Store) (str : List UInt8) (r : Option Entry) (s' : Store) : Prop where
  store : StoreOk s'
  keeps : Keeps s s'
  initialized : s'.table.initialized = s.table.initialized
  found : ∀ e, r = some e → e ∈ entries s' ∧ text s'.strings e = str ∧ ∀ t, t ∈ texts s' ↔ t = str ∨ t ∈ texts s
  failed : r = none → s' = s

theorem text_alloc {strings : Heap (List UInt8)} {e : Entry} (h : EntryOk strings e) (bytes : List UInt8) :
    text (strings.alloc bytes) e = text strings e := by
  have hold := Heap.alloc_old h.bytes (a := bytes)
  rw [text, hold, Option.getD_some, List.dropLast_concat]

theorem EntryOk.alloc {strings : Heap (List UInt8)} {e : Entry} (h : EntryOk strings e) (bytes : List UInt8) :
    EntryOk (strings.alloc bytes) e := by
  have htext := text_alloc h bytes
  refine ⟨?_, ?_, ?_⟩
  · rw [htext]
    exact Heap.alloc_old h.bytes
  · rw [htext]
    exact h.len
  · rw [htext]
    exact h.hash

def newEntry (s : Store) (str : List UInt8) : Entry := ⟨s.strings.next, str.length, hashString str⟩

def withEntry (s : Store) (str : List UInt8) (chain : List Entry) : Store where
  table :=
    { s.table with
      buckets := s.table.buckets.set (bucketIdx s.table (hashString str)) (newEntry s str :: chain)
      stringCount := s.table.stringCount + 1
      totalBytes := s.table.totalBytes + (str.length + 1) }
  strings := s.strings.alloc (str ++ [0])

section NewEntry

variable {chain : List Entry} (h : StoreOk s) (hget : s.table.buckets[bucketIdx s.table (hashString str)]? = some chain)

include hget in
theorem entries_withEntry : (entries (withEntry s str chain)).Perm (newEntry s str :: entries s) :=
  push_perm hget (newEntry s str)

theorem text_newEntry : text (withEntry s str chain).strings (newEntry s str) = str := by
  simp [text, withEntry, newEntry]

include h in
theorem text_withEntry {e : Entry} (he : e ∈ entries s) :
    text (withEntry s str chain).strings e = text s.strings e :=
  text_alloc (h.named e he) _

include h hget in
theorem texts_withEntry : (texts (withEntry s str chain)).Perm (str :: texts s) := by
  refine ((entries_withEntry hget).map _).trans ?_
  rw [List.map_cons, text_newEntry, texts, List.map_congr_left fun e he => text_withEntry h he]

include h hget in
theorem storeOk_withEntry (hinit : s.table.initialized = true) (hnew : str ∉ texts s) :
    StoreOk (withEntry s str chain) := by
  have hperm := entries_withEntry hget
  refine ⟨fun _ => ?_, ?_, ?_, ?_, ?_, ?_, ?_⟩
  · rw [withEntry, List.length_set]
    exact h.size hinit
  · intro hoff
    cases hinit.symm.trans hoff
  · intro i c hc e he
    rcases getElem?_set_cases hc with ⟨rfl, rfl⟩ | hc
    · rcases List.mem_cons.mp he with rfl | he
      · rfl
      · exact h.home _ _ hget e he
    · exact h.home i c hc e he
  · intro e he
    rcases List.mem_cons.mp (hperm.mem_iff.mp he) with rfl | he
    · refine ⟨?_, ?_, ?_⟩
      · rw [text_newEntry]
        exact Heap.alloc_self _ _
      · rw [text_newEntry]
        rfl
      · rw [text_newEntry]
        rfl
    · exact (h.named e he).alloc _
  · rw [(texts_withEntry h hget).nodup_iff, List.nodup_cons]
    exact ⟨hnew, h.distinct⟩
  · rw [hperm.length_eq, List.length_cons, ← h.count]
    rfl
  · rw [(hperm.map _).sum_eq, List.map_cons, List.sum_cons, ← h.bytes, Nat.add_comm]
    rfl

end NewEntry

theorem createEntry_ok (h : StoreOk s) (hinit : s.table.initialized = true) (hnew : str ∉ texts s) (grants : Grants) :
    ∃ r s', createEntry s str (hashString str) grants = some (r, s') ∧ LockedOk s str r s' := by
  have hfail : LockedOk s str none s := ⟨h, fun e he => ⟨he, rfl⟩, rfl, nofun, fun _ => rfl⟩
  have hget := List.getElem?_eq_getElem (bucketIdx_lt h hinit (hashString str))
  rw [createEntry, hget]
  split_ifs
  · exact ⟨none, s, rfl, hfail⟩
  · exact ⟨none, s, rfl, hfail⟩
  · refine ⟨some (newEntry s str), withEntry s str _, rfl, storeOk_withEntry h hget hinit hnew, ?_, rfl, ?_, nofun⟩
    · intro e he
      exact ⟨(entries_withEntry hget).mem_iff.mpr (List.mem_cons_of_mem _ he), text_withEntry h he⟩
    · rintro _ ⟨⟩
      refine ⟨(entries_withEntry hget).mem_iff.mpr List.mem_cons_self, text_newEntry, fun t => ?_⟩
      rw [(texts_withEntry h hget).mem_iff, List.mem_cons]

theorem internLocked_ok (h : StoreOk s) (hinit : s.table.initialized = true) (str : List UInt8) (grants : Grants) :
    ∃ r s', internLocked s str (hashString str) grants = some (r, s') ∧ LockedOk s str r s' := by
  obtain ⟨r, hr, hfound, hmissing⟩ := findEntry_spec h hinit str
  rw [internLocked, hr]
  cases r with
  | none => exact createEntry_ok h hinit (hmissing rfl) grants
  | some e =>
      obtain ⟨he, htext⟩ := hfound e rfl
      refine ⟨some e, s, rfl, h, fun e he => ⟨he, rfl⟩, rfl, ?_, nofun⟩
      rintro _ ⟨⟩
      refine ⟨he, htext, fun t => ?_⟩
      constructor
      · exact .inr
      · rintro (rfl | ht)
        · exact List.mem_map.mpr ⟨e, he, htext⟩
        · exact ht

end Sections

variable {ι : Type} [DecidableEq ι]

def internedBy : Event → Option (List UInt8)
  | .interned str => some str
  | .returned _ _ => none

def interned (trace : List Event) : Finset (List UInt8) := (trace.filterMap internedBy).toFinset

def CallOk (s : Store) : CallPhase → Prop
  | .hashed str hash => hash = hashString str ∧ s.table.initialized = true
  | .leaving str (some e) => e ∈ entries s ∧ text s.strings e = str
  | _ => True

theorem CallOk.mono {s s' : Store} {p : CallPhase} (h : CallOk s p) (hkeeps : Keeps s s')
    (hinit : s'.table.initialized = s.table.initialized) : CallOk s' p := by
  cases p with
  | idle | entered => trivial
  | hashed str hash => exact ⟨h.1, hinit.trans h.2⟩
  | leaving str entry =>
      cases entry with
      | none => trivial
      | some e => exact ⟨(hkeeps e h.1).1, (hkeeps e h.1).2.trans h.2⟩

/-- A call for the string has returned a pointer or is about to. -/
def Succeeded (trace : List Event) (s : System ι) (str : List UInt8) : Prop :=
  (∃ p, .returned str (some p) ∈ trace) ∨ ∃ i e, s.calls i = .leaving str (some e)

structure SystemOk (trace : List Event) (s : System ι) : Prop where
  store : StoreOk s.store
  calls : ∀ i, CallOk s.store (s.calls i)
  returned : ∀ str p, .returned str (some p) ∈ trace → ∃ e ∈ entries s.store, e.str = p ∧ text s.store.strings e = str
  interned : ∀ str, str ∈ interned trace ↔ str ∈ texts s.store
  succeeded : ∀ str, str ∈ InternCanonicity.interned trace ↔ Succeeded trace s str

structure StepOk (s : Store) (p p' : CallPhase) (s' : Store) (events : List Event) : Prop where
  store : StoreOk s'
  keeps : Keeps s s'
  initialized : s'.table.initialized = s.table.initialized
  call : CallOk s' p'
  returned : ∀ str ptr, .returned str (some ptr) ∈ events ↔ ∃ e, p = .leaving str (some e) ∧ ptr = e.str
  interned : ∀ str, .interned str ∈ events ↔ ∃ e, p' = .leaving str (some e)
  texts : ∀ str, str ∈ InternCanonicity.texts s' ↔ .interned str ∈ events ∨ str ∈ InternCanonicity.texts s

theorem internStep_ok {s s' : Store} {grants : Grants} {p p' : CallPhase} {events : List Event} (h : StoreOk s)
    (hp : CallOk s p) (hstep : internStep s grants p = some (p', s', events)) : StepOk s p p' s' events := by
  have hkeeps : Keeps s s := fun e he => ⟨he, rfl⟩
  cases p with
  | idle => cases hstep
  | entered str =>
      simp only [internStep] at hstep
      split_ifs at hstep with hinit
      · cases hstep
        exact ⟨h, hkeeps, rfl, trivial, by simp, by simp, by simp⟩
      · cases hstep
        exact ⟨h, hkeeps, rfl, ⟨rfl, by simpa using hinit⟩, by simp, by simp, by simp⟩
  | hashed str hash =>
      obtain ⟨rfl, hinit⟩ := hp
      obtain ⟨r, s₁, hlocked, hok⟩ := internLocked_ok h hinit str grants
      simp only [internStep, hlocked] at hstep
      cases r with
      | none =>
          cases hstep
          obtain rfl := hok.failed rfl
          exact ⟨h, hkeeps, rfl, trivial, by simp, by simp, by simp⟩
      | some e =>
          cases hstep
          obtain ⟨he, htext, htexts⟩ := hok.found e rfl
          exact ⟨hok.store, hok.keeps, hok.initialized, ⟨he, htext⟩, by simp, by simp [eq_comm], by simpa using htexts⟩
  | leaving str entry =>
      cases hstep
      refine ⟨h, hkeeps, rfl, trivial, fun str' ptr => ?_, by simp, by simp⟩
      cases entry with
      | none => simp
      | some e => simp [eq_comm]

theorem mem_interned {trace : List Event} {str : List UInt8} : str ∈ interned trace ↔ .interned str ∈ trace := by
  rw [interned, List.mem_toFinset, List.mem_filterMap]
  constructor
  · rintro ⟨e, he, hstr⟩
    cases e with
    | interned str' =>
        cases hstr
        exact he
    | returned => cases hstr
  · exact fun he => ⟨_, he, rfl⟩

theorem SystemOk.begin {trace : List Event} {s : System ι} (h : SystemOk trace s) {i : ι} {p : CallPhase}
    (hidle : s.calls i = .idle) (hp : ∃ str, p = akIntern str ∨ p = akInternN str) :
    SystemOk trace { s with calls := Function.update s.calls i p } := by
  have hentered : p = .idle ∨ ∃ str, p = .entered str := by
    obtain ⟨str, rfl | rfl⟩ := hp
    · cases str with
      | none => exact .inl rfl
      | some str => exact .inr ⟨_, rfl⟩
    · cases str with
      | none => exact .inl rfl
      | some str => exact .inr ⟨_, rfl⟩
  refine ⟨h.store, ?_, h.returned, h.interned, fun str => (h.succeeded str).trans (or_congr_right ?_)⟩
  · rw [Function.forall_update_iff _ fun _ => CallOk s.store]
    refine ⟨?_, fun j _ => h.calls j⟩
    rcases hentered with rfl | ⟨str, rfl⟩ <;> trivial
  · constructor
    · rintro ⟨j, e, hj⟩
      have hji : j ≠ i := by
        rintro rfl
        cases hidle.symm.trans hj
      exact ⟨j, e, by simpa only [Function.update_of_ne hji] using hj⟩
    · rintro ⟨j, e, hj⟩
      by_cases hji : j = i
      · subst j
        rcases hentered with rfl | ⟨str, rfl⟩ <;> simp at hj
      · exact ⟨j, e, by simpa only [Function.update_of_ne hji] using hj⟩

theorem SystemOk.call {trace events : List Event} {s : System ι} {store : Store} {i : ι} {p' : CallPhase}
    (h : SystemOk trace s) (hok : StepOk s.store (s.calls i) p' store events) :
    SystemOk (trace ++ events) (⟨store, Function.update s.calls i p'⟩ : System ι) := by
  refine ⟨hok.store, ?_, ?_, ?_, ?_⟩
  · rw [Function.forall_update_iff _ fun _ => CallOk store]
    exact ⟨hok.call, fun j _ => (h.calls j).mono hok.keeps hok.initialized⟩
  · intro str ptr hmem
    rcases List.mem_append.mp hmem with hold | hnew
    · obtain ⟨e, he, hstr, htext⟩ := h.returned str ptr hold
      exact ⟨e, (hok.keeps e he).1, hstr, (hok.keeps e he).2.trans htext⟩
    · obtain ⟨e, hcall, rfl⟩ := (hok.returned str ptr).mp hnew
      have he := h.calls i
      rw [hcall] at he
      exact ⟨e, (hok.keeps e he.1).1, rfl, (hok.keeps e he.1).2.trans he.2⟩
  · intro str
    rw [mem_interned, List.mem_append, ← mem_interned, h.interned, hok.texts, or_comm]
  · intro str
    rw [mem_interned, List.mem_append, ← mem_interned, h.succeeded, hok.interned]
    constructor
    · rintro ((⟨ptr, hptr⟩ | ⟨j, e, hj⟩) | ⟨e, rfl⟩)
      · exact .inl ⟨ptr, List.mem_append_left _ hptr⟩
      · by_cases hji : j = i
        · subst j
          exact .inl ⟨e.str, List.mem_append_right _ ((hok.returned str e.str).mpr ⟨e, hj, rfl⟩)⟩
        · exact .inr ⟨j, e, by simpa only [Function.update_of_ne hji] using hj⟩
      · exact .inr ⟨i, e, by simp⟩
    · rintro (⟨ptr, hptr⟩ | ⟨j, e, hj⟩)
      · rcases List.mem_append.mp hptr with hold | hnew
        · exact .inl (.inl ⟨ptr, hold⟩)
        · obtain ⟨e, hcall, -⟩ := (hok.returned str ptr).mp hnew
          exact .inl (.inr ⟨i, e, hcall⟩)
      · by_cases hji : j = i
        · subst j
          exact .inr ⟨e, by simpa using hj⟩
        · exact .inl (.inr ⟨j, e, by simpa only [Function.update_of_ne hji] using hj⟩)

theorem systemOk_run {granted : Bool} {strings : Heap (List UInt8)} {trace : List Event} {s : System ι}
    (hrun : Run Step (System.start granted strings) trace s) : SystemOk trace s := by
  apply hrun.invariant
  · have hentries := entries_init granted strings
    refine ⟨storeOk_init granted strings, fun _ => trivial, nofun, ?_, ?_⟩
    · simp [interned, texts, System.start, hentries]
    · simp [interned, Succeeded, System.start]
  · rintro trace s events s' h hstep
    cases hstep with
    | begin i p hidle hp => simpa using h.begin hidle hp
    | call i grants p' store _ hcall => exact h.call (internStep_ok h.store (h.calls i) hcall)

section Claims

variable {granted : Bool} {strings : Heap (List UInt8)} {trace : List Event} {s : System ι}

omit [DecidableEq ι] in
theorem SystemOk.interned_eq (h : SystemOk trace s) : InternCanonicity.interned trace = (texts s.store).toFinset := by
  ext str
  rw [h.interned, List.mem_toFinset]

omit [DecidableEq ι] in
theorem SystemOk.canonical (h : SystemOk trace s) {str str' : List UInt8} {p p' : Nat}
    (hstr : .returned str (some p) ∈ trace) (hstr' : .returned str' (some p') ∈ trace) : p = p' ↔ str = str' := by
  obtain ⟨e, he, rfl, rfl⟩ := h.returned str p hstr
  obtain ⟨e', he', rfl, rfl⟩ := h.returned str' p' hstr'
  constructor
  · intro hsame
    rw [text, text, hsame]
  · intro hsame
    rw [List.inj_on_of_nodup_map h.store.distinct he he' hsame]

omit [DecidableEq ι] in
theorem SystemOk.stats (h : SystemOk trace s) :
    akInternStats s.store.table =
      ((InternCanonicity.interned trace).card, ∑ str ∈ InternCanonicity.interned trace, (str.length + 1)) := by
  have hcard : (InternCanonicity.interned trace).card = (entries s.store).length := by
    rw [h.interned_eq, List.toFinset_card_of_nodup h.store.distinct, texts, List.length_map]
  have hsum : ∑ str ∈ InternCanonicity.interned trace, (str.length + 1) =
      ((entries s.store).map fun e => e.len + 1).sum := by
    rw [h.interned_eq, List.sum_toFinset _ h.store.distinct, texts, List.map_map]
    congr 1
    apply List.map_congr_left
    intro e he
    rw [(h.store.named e he).len]
    rfl
  rw [akInternStats, hcard, hsum]
  split_ifs with hinit
  · rw [h.store.empty (by simpa using hinit)]
    rfl
  · rw [h.store.count, h.store.bytes]

theorem internLocked_failed {store store' : Store} {str : List UInt8} {hash : BitVec 64} {grants : Grants}
    (h : internLocked store str hash grants = some (none, store')) : store' = store := by
  rw [internLocked] at h
  split at h
  · cases h
  · cases h
  · rw [createEntry] at h
    split_ifs at h
    · cases h
      rfl
    · cases h
      rfl
    · split at h <;> cases h

theorem akInternClear_fresh {store : Store} (h : StoreOk store) (hinit : store.table.initialized = true) :
    (akInternClear store).table = akInternInit .zero true := by
  obtain ⟨hlength, hcount⟩ := h.size hinit
  have hbuckets : store.table.buckets.map (fun _ => ([] : List Entry)) = List.replicate initialTableSize [] := by
    rw [List.map_const', hlength]
    rfl
  rw [akInternClear, if_neg (by simp [hinit])]
  dsimp only
  rw [hbuckets, hcount, hinit]
  rfl

/-- Over every order of the threads' steps and whatever allocations fail. -/
theorem intern_canonicity (hrun : Run Step (System.start granted strings) trace s) :
    (∀ str str' p p', .returned str (some p) ∈ trace → .returned str' (some p') ∈ trace → (p = p' ↔ str = str')) ∧
    (∀ str p, .returned str (some p) ∈ trace → s.store.strings.cells p = some (str ++ [0])) ∧
    akInternStats s.store.table = ((interned trace).card, ∑ str ∈ interned trace, (str.length + 1)) ∧
    (∀ str, str ∈ interned trace ↔ Succeeded trace s str) ∧
    (∀ str hash grants store, internLocked s.store str hash grants = some (none, store) → store = s.store) ∧
    (s.store.table.initialized = true →
      ∃ strings, (⟨akInternClear s.store, fun _ => .idle⟩ : System ι) = System.start true strings) := by
  have h := systemOk_run hrun
  refine ⟨fun _ _ _ _ => h.canonical, fun str p hstr => ?_, h.stats, h.succeeded, fun _ _ _ _ => internLocked_failed,
    fun hinit => ⟨(akInternClear s.store).strings, ?_⟩⟩
  · obtain ⟨e, he, rfl, rfl⟩ := h.returned str p hstr
    exact (h.store.named e he).bytes
  · rw [System.start, ← akInternClear_fresh h.store hinit]

end Claims

/-- Two threads race to intern the same bytes with a NUL, and then ask for those
before the NUL, which share their bucket, twice: the first time no memory is
found. -/
theorem race_interns_once : ∃ trace, ∃ s : System Bool, Run Step (System.start true (Heap.empty _)) trace s ∧
    trace = [.interned [32, 65, 90, 0], .interned [32, 65, 90, 0], .returned [32, 65, 90, 0] (some 0),
      .returned [32, 65, 90, 0] (some 0), .returned [32, 65, 90] none, .interned [32, 65, 90],
      .returned [32, 65, 90] (some 1)] ∧ akInternStats s.store.table = (2, 9) := by
  have r₁ : Run Step (System.start true (Heap.empty _)) _ (_ : System Bool) :=
    .next .start (.begin _ true _ rfl ⟨some [32, 65, 90, 0], .inr rfl⟩)
  have r₂ := r₁.next (.begin _ false _ rfl ⟨some [32, 65, 90, 0], .inr rfl⟩)
  have r₃ := r₂.next (.call _ true ⟨true, true⟩ _ _ _ rfl)
  have r₄ := r₃.next (.call _ false ⟨true, true⟩ _ _ _ rfl)
  have r₅ := r₄.next (.call _ false ⟨true, true⟩ _ _ _ rfl)
  have r₆ := r₅.next (.call _ true ⟨true, true⟩ _ _ _ rfl)
  have r₇ := r₆.next (.call _ true ⟨true, true⟩ _ _ _ rfl)
  have r₈ := r₇.next (.call _ false ⟨true, true⟩ _ _ _ rfl)
  have r₉ := r₈.next (.begin _ false _ rfl ⟨some [32, 65, 90, 0], .inl rfl⟩)
  have r₁₀ := r₉.next (.call _ false ⟨true, true⟩ _ _ _ rfl)
  have r₁₁ := r₁₀.next (.call _ false ⟨true, false⟩ _ _ _ rfl)
  have r₁₂ := r₁₁.next (.call _ false ⟨true, true⟩ _ _ _ rfl)
  have r₁₃ := r₁₂.next (.begin _ true _ rfl ⟨some [32, 65, 90], .inr rfl⟩)
  have r₁₄ := r₁₃.next (.call _ true ⟨true, true⟩ _ _ _ rfl)
  have r₁₅ := r₁₄.next (.call _ true ⟨true, true⟩ _ _ _ rfl)
  have r₁₆ := r₁₅.next (.call _ true ⟨true, true⟩ _ _ _ rfl)
  exact ⟨_, _, r₁₆, rfl, (intern_canonicity r₁₆).2.2.1⟩

end Ak24.InternCanonicity
