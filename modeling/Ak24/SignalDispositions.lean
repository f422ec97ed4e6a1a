import Ak24.ListRefinement
import Ak24.SignalDeadlock

namespace Ak24.SignalDispositions

open Objects Transition ListRefinement SignalModel SignalDeadlock

variable {α : Type}

def Registered (s : Signals Unit α) (signum : Int) : Prop :=
  ∃ p entry, p ∈ contents s.handlers ∧ s.entries.cells p = some entry ∧ entry.signum = signum

def Idle (s : Process Unit α) : Prop := ∀ frame ∈ s.threads (), ∃ signum place, frame = .dispatch signum place

/-- The handlers are initialized once before each deinitialization; the push after
an installation gets the memory that it asks for; and a restoring `sigaction`
succeeds. -/
def keptEvent (s : Process Unit α) : Event Unit → Bool
  | .called _ .init => !s.signals.initialized
  | .ran _ (.register _ _ (.push _)) grants =>
    (grants.push.growth || decide (s.signals.handlers.list.count < s.signals.handlers.list.capacity)) &&
      grants.push.item
  | .ran _ (.unregister _ (.restore _ _)) grants | .ran _ (.deinit (.restore _ _)) grants => grants.sigaction
  | _ => true

def Kept (s : Process Unit α) (events : List (Event Unit)) : Prop := ∀ e ∈ events, keptEvent s e

def signums (es : List (Entry α)) : Set Int := { signum | signum ∈ es.map Entry.signum }

def Installed (actions : Int → α) (dispositions : Int → Action α) (live : Set Int) : Prop :=
  (∀ signum ∈ live, dispositions signum = .akSignalDispatch) ∧
    ∀ signum ∉ live, dispositions signum = .foreign (actions signum)

section Sets

variable {actions : Int → α} {dispositions : Int → Action α} {live : Set Int} {signum : Int}

theorem Installed.install (h : Installed actions dispositions live) (signum : Int) :
    Installed actions (Function.update dispositions signum .akSignalDispatch) (insert signum live) := by
  constructor
  · intro n hn
    by_cases hne : n = signum
    · rw [hne, Function.update_self]
    · rw [Function.update_of_ne hne]
      exact h.1 n (hn.resolve_left hne)
  · intro n hn
    obtain ⟨hne, hlive⟩ := not_or.mp hn
    rw [Function.update_of_ne hne]
    exact h.2 n hlive

theorem Installed.restore (h : Installed actions dispositions live) (signum : Int) :
    Installed actions (Function.update dispositions signum (.foreign (actions signum))) (live \ {signum}) := by
  constructor
  · rintro n ⟨hn, hne⟩
    rw [Function.update_of_ne hne]
    exact h.1 n hn
  · intro n hn
    by_cases hne : n = signum
    · rw [hne, Function.update_self]
    · rw [Function.update_of_ne hne]
      exact h.2 n fun hlive => hn ⟨hlive, hne⟩

end Sets

structure Books (actions : Int → α) (handlers : ListModel.State Nat) (entries : Heap (Entry α)) (ps : List Nat)
    (es : List (Entry α)) : Prop where
  list : ∃ items, ListOk handlers items ps
  stored : entries.Stores ps es
  nodup : (es.map Entry.signum).Nodup
  valid : ∀ entry ∈ es, 0 < entry.signum ∧ entry.signum < nsig
  old : ∀ entry ∈ es, entry.oldAction = some (.foreign (actions entry.signum))

section Entries

variable {actions : Int → α} {handlers : ListModel.State Nat} {entries : Heap (Entry α)} {ps : List Nat}
  {es : List (Entry α)} {k : Nat} {p : Nat} {entry : Entry α} {s : Signals Unit α}

theorem Books.length_le (h : Books actions handlers entries ps es) : es.length ≤ 64 := by
  have hsub : (es.map Entry.signum).toFinset ⊆ Finset.Ioo 0 nsig := by
    intro signum hmem
    obtain ⟨entry, hentry, rfl⟩ := List.mem_map.mp (List.mem_toFinset.mp hmem)
    exact Finset.mem_Ioo.mpr (h.valid entry hentry)
  have hcard := Finset.card_le_card hsub
  rwa [List.toFinset_card_of_nodup h.nodup, List.length_map, Int.card_Ioo] at hcard

theorem Books.count_eq (h : Books actions handlers entries ps es) : handlers.list.count = es.length := by
  obtain ⟨items, hlist⟩ := h.list
  rw [hlist.count_eq, h.stored.length_eq]

theorem Books.nodup_ptrs (h : Books actions handlers entries ps es) : ps.Nodup := by
  have hsome : (es.map some).Nodup := (List.Nodup.of_map _ h.nodup).map (Option.some_injective _)
  rw [← h.stored] at hsome
  exact List.Nodup.of_map _ hsome

theorem Books.lookup (h : Books actions handlers entries ps es) (hk : k < es.length) :
    ∃ p, ps[k]? = some p ∧ entries.cells p = some es[k] := by
  have hlt : k < ps.length := by rwa [h.stored.length_eq]
  exact ⟨ps[k], List.getElem?_eq_getElem hlt, h.stored.getElem hlt hk⟩

theorem Books.registered_iff (h : Books actions s.handlers s.entries ps es) (signum : Int) :
    Registered s signum ↔ signum ∈ signums es := by
  obtain ⟨items, hlist⟩ := h.list
  rw [Registered, hlist.contents_eq]
  constructor
  · rintro ⟨p, entry, hp, hcell, rfl⟩
    have hmem : s.entries.cells p ∈ ps.map s.entries.cells := List.mem_map_of_mem hp
    rw [h.stored, hcell] at hmem
    exact List.mem_map_of_mem (by simpa using hmem)
  · intro hmem
    obtain ⟨entry, hentry, rfl⟩ := List.mem_map.mp hmem
    obtain ⟨k, hk, rfl⟩ := List.getElem_of_mem hentry
    obtain ⟨p, hp, hcell⟩ := h.lookup hk
    exact ⟨p, es[k], List.mem_of_getElem? hp, hcell, rfl⟩

theorem Books.nextEntry (h : Books actions s.handlers s.entries ps es) (iter : ListModel.ListIter) :
    (∃ p entry, iter.valid = true ∧ ps[iter.index]? = some p ∧ es[iter.index]? = some entry ∧
        s.entries.cells p = some entry ∧
        nextEntry s iter = some (some (p, entry), { iter with index := iter.index + 1 })) ∨
      (iter.valid = true → es.length ≤ iter.index) ∧ nextEntry s iter = some (none, { iter with valid := false }) := by
  unfold SignalModel.nextEntry ListModel.listNext
  rw [h.count_eq]
  by_cases hend : iter.valid = false ∨ es.length ≤ iter.index
  · rw [if_pos (by simpa using hend)]
    refine .inr ⟨fun hvalid => hend.resolve_left (by simp [hvalid]), rfl⟩
  · obtain ⟨hvalid, hlt⟩ := not_or.mp hend
    have hk : iter.index < es.length := not_le.mp hlt
    obtain ⟨items, hlist⟩ := h.list
    obtain ⟨p, hp, hcell⟩ := h.lookup hk
    obtain ⟨hkp, hget⟩ := List.getElem?_eq_some_iff.mp hp
    obtain ⟨item, -, hfetch, hitem⟩ := hlist.item hkp
    have hlength := h.length_le
    refine .inl ⟨p, es[iter.index], by simpa using hvalid, hp, List.getElem?_eq_getElem hk, hcell, ?_⟩
    rw [if_neg (by simpa using hend), hfetch]
    dsimp only [Option.bind_eq_bind, Option.bind_some, Option.map_some]
    rw [hitem, Option.bind_some, hget, hcell, Option.bind_some, Nat.mod_eq_of_lt (by omega)]

end Entries

def CallOk (actions : Int → α) (s : Signals Unit α) (ps : List Nat) (es : List (Entry α)) : Frame → Prop
  | .register _ _ .lock => s.initialized = true ∧ Installed actions s.dispositions (signums es)
  | .register signum _ (.scan iter) =>
    s.initialized = true ∧ iter.valid = true ∧ signum ∉ signums (es.take iter.index) ∧
      Installed actions s.dispositions (signums es)
  | .register _ _ (.update p) => p ∈ ps ∧ Installed actions s.dispositions (signums es)
  | .register signum _ .create =>
    s.initialized = true ∧ signum ∉ signums es ∧ Installed actions s.dispositions (signums es)
  | .register signum handler (.install p) =>
    s.initialized = true ∧ signum ∉ signums es ∧ s.entries.cells p = some ⟨signum, handler, none⟩ ∧
      Installed actions s.dispositions (signums es)
  | .register signum handler (.push p) =>
    s.initialized = true ∧ signum ∉ signums es ∧
      s.entries.cells p = some ⟨signum, handler, some (.foreign (actions signum))⟩ ∧ (0 < signum ∧ signum < nsig) ∧
      Installed actions s.dispositions (insert signum (signums es))
  | .unregister signum (.scan iter index) =>
    iter = ⟨index, true⟩ ∧ signum ∉ signums (es.take index) ∧ Installed actions s.dispositions (signums es)
  | .unregister signum (.restore p index) =>
    (∃ entry, ps[index]? = some p ∧ es[index]? = some entry ∧ entry.signum = signum) ∧
      Installed actions s.dispositions (signums es)
  | .unregister signum (.remove index) =>
    (∃ entry, es[index]? = some entry ∧ entry.signum = signum) ∧
      Installed actions s.dispositions (signums es \ {signum})
  | .unregister signum .unlock => signum ∉ signums es ∧ Installed actions s.dispositions (signums es)
  | .deinit (.scan iter) => iter.valid = true ∧ Installed actions s.dispositions (signums (es.drop iter.index))
  | .deinit (.restore p iter) =>
    ∃ k entry, iter = ⟨k + 1, true⟩ ∧ ps[k]? = some p ∧ es[k]? = some entry ∧
      Installed actions s.dispositions (signums (es.drop k))
  | .deinit .finish => Installed actions s.dispositions ∅
  | .deinit .unlock | .init => es = [] ∧ Installed actions s.dispositions (signums es)
  | .register _ _ _ | .unregister _ _ | .deinit _ => Installed actions s.dispositions (signums es)
  | .dispatch _ _ => False

def Returned (es : List (Entry α)) : Frame → Prop
  | .unregister signum _ => signum ∉ signums es
  | .deinit _ => es = []
  | _ => True

def After (actions : Int → α) (frame : Frame) (s : Signals Unit α) (next : Option Frame) : Prop :=
  ∃ ps es, Books actions s.handlers s.entries ps es ∧ (s.initialized = false → es = []) ∧
    match next with
    | none => Installed actions s.dispositions (signums es) ∧ Returned es frame
    | some frame => CallOk actions s ps es frame

section Calls

variable {actions : Int → α} {s : Signals Unit α} {ps : List Nat} {es : List (Entry α)} {signum : Int}
  {handler : Option Nat} {k p : Nat} {entry : Entry α}

theorem notMem_take_succ (h : signum ∉ signums (es.take k)) (hk : es[k]? = some entry) (hne : entry.signum ≠ signum) :
    signum ∉ signums (es.take (k + 1)) := by
  intro hmem
  rw [signums, List.take_add_one, hk, Option.toList_some, List.map_append] at hmem
  rcases List.mem_append.mp hmem with hold | hnew
  · exact h hold
  · exact hne (List.mem_singleton.mp hnew).symm

theorem Books.update (h : Books actions s.handlers s.entries ps es) (hp : p ∈ ps) (handler : Option Nat) :
    ∃ entry es', s.entries.cells p = some entry ∧ signums es' = signums es ∧ es'.length = es.length ∧
      Books actions s.handlers (s.entries.store p { entry with handler }) ps es' := by
  obtain ⟨k, hkp, rfl⟩ := List.getElem_of_mem hp
  have hk : k < es.length := by rwa [← h.stored.length_eq]
  have hsignums : (es.set k { es[k] with handler }).map Entry.signum = es.map Entry.signum := by
    have hlt : k < (es.map Entry.signum).length := by rwa [List.length_map]
    have hself := List.set_getElem_self hlt
    rw [List.getElem_map] at hself
    rw [List.map_set]
    exact hself
  refine ⟨es[k], es.set k { es[k] with handler }, h.stored.getElem hkp hk, ?_, List.length_set, ?_⟩
  · rw [signums, hsignums, signums]
  · refine ⟨h.list, h.stored.store h.nodup_ptrs hkp _, by rw [hsignums]; exact h.nodup, ?_, ?_⟩
    · intro entry hentry
      rcases List.mem_or_eq_of_mem_set hentry with hmem | rfl
      · exact h.valid entry hmem
      · exact h.valid es[k] (List.getElem_mem hk)
    · intro entry hentry
      rcases List.mem_or_eq_of_mem_set hentry with hmem | rfl
      · exact h.old entry hmem
      · exact h.old es[k] (List.getElem_mem hk)

theorem Books.notMem (h : Books actions s.handlers s.entries ps es) (hp : s.entries.cells p = some entry)
    (hnone : entry.oldAction = none) : p ∉ ps := by
  intro hmem
  obtain ⟨k, hkp, rfl⟩ := List.getElem_of_mem hmem
  have hk : k < es.length := by rwa [← h.stored.length_eq]
  rw [h.stored.getElem hkp hk] at hp
  cases hp
  rw [h.old es[k] (List.getElem_mem hk)] at hnone
  cases hnone

theorem Books.append (h : Books actions s.handlers s.entries ps es) {handlers : ListModel.State Nat}
    {items : List Nat} (hlist : ListOk handlers items (ps ++ [p])) (hnew : entry.signum ∉ signums es)
    (hp : s.entries.cells p = some entry) (hvalid : 0 < entry.signum ∧ entry.signum < nsig)
    (hold : entry.oldAction = some (.foreign (actions entry.signum))) :
    Books actions handlers s.entries (ps ++ [p]) (es ++ [entry]) := by
  refine ⟨⟨items, hlist⟩, ?_, ?_, ?_, ?_⟩
  · rw [Heap.Stores, List.map_append, List.map_append, h.stored, List.map_singleton, List.map_singleton, hp]
  · rw [List.map_append]
    exact List.Nodup.append h.nodup (List.nodup_singleton _) (List.disjoint_singleton.mpr hnew)
  · intro e he
    rcases List.mem_append.mp he with hmem | hmem
    · exact h.valid e hmem
    · rwa [List.mem_singleton.mp hmem]
  · intro e he
    rcases List.mem_append.mp he with hmem | hmem
    · exact h.old e hmem
    · rwa [List.mem_singleton.mp hmem]

theorem signums_append : signums (es ++ [entry]) = insert entry.signum (signums es) := by
  ext n
  simp [signums, or_comm, eq_comm]

theorem sigaction_ok (h : 0 < signum ∧ signum < nsig) (act : Action α) :
    sigaction s signum act true =
      some (s.dispositions signum, { s with dispositions := Function.update s.dispositions signum act }) :=
  if_pos ⟨rfl, h⟩

theorem register_after (hbooks : Books actions s.handlers s.entries ps es) (hinit : s.initialized = false → es = [])
    (grants : Grants) {place : RegisterPlace} (hcall : CallOk actions s ps es (.register signum handler place))
    (hwait : place = .lock → s.mutex = none)
    (hkept : ∀ p, place = .push p →
      (grants.push.growth = true ∨ s.handlers.list.count < s.handlers.list.capacity) ∧ grants.push.item = true) :
    ∃ next s', akRegisterSignalHandler () s grants signum handler place = some (next, s') ∧
      After actions (.register signum handler place) s' (next.map (.register signum handler)) := by
  cases place with
  | enter =>
      rw [akRegisterSignalHandler]
      split_ifs with hskip
      · exact ⟨none, s, rfl, ps, es, hbooks, hinit, hcall, trivial⟩
      · exact ⟨some .lock, s, rfl, ps, es, hbooks, hinit, by simpa using (not_or.mp hskip).2, hcall⟩
  | lock =>
      obtain ⟨hon, hinstalled⟩ := hcall
      exact ⟨some (.scan ListModel.listIter), _, if_pos (hwait rfl), ps, es, hbooks, hinit, hon, rfl,
        List.not_mem_nil, hinstalled⟩
  | scan iter =>
      obtain ⟨hon, hvalid, hnew, hinstalled⟩ := hcall
      rcases hbooks.nextEntry iter with ⟨p, entry, -, hp, hentry, -, hnext⟩ | ⟨hend, hnext⟩
      · by_cases heq : entry.signum = signum
        · refine ⟨some (.update p), s, ?_, ps, es, hbooks, hinit, List.mem_of_getElem? hp, hinstalled⟩
          rw [akRegisterSignalHandler, hnext]
          exact if_pos heq
        · refine ⟨some (.scan { iter with index := iter.index + 1 }), s, ?_, ps, es, hbooks, hinit, hon, hvalid,
            notMem_take_succ hnew hentry heq, hinstalled⟩
          rw [akRegisterSignalHandler, hnext]
          exact if_neg heq
      · refine ⟨some .create, s, ?_, ps, es, hbooks, hinit, hon, ?_, hinstalled⟩
        · rw [akRegisterSignalHandler, hnext]
          rfl
        · rwa [List.take_of_length_le (hend hvalid)] at hnew
  | update p =>
      obtain ⟨hp, hinstalled⟩ := hcall
      obtain ⟨entry, es', hcell, hsame, hlength, hbooks'⟩ := hbooks.update hp handler
      refine ⟨some .unlock, { s with entries := s.entries.store p { entry with handler } }, ?_, ps, es', hbooks',
        ?_, ?_⟩
      · rw [akRegisterSignalHandler, hcell]
        rfl
      · intro hnot
        rw [hinit hnot] at hlength
        exact List.eq_nil_of_length_eq_zero hlength
      · rw [← hsame] at hinstalled
        exact hinstalled
  | create =>
      obtain ⟨hon, hnew, hinstalled⟩ := hcall
      rw [akRegisterSignalHandler]
      split_ifs
      · exact ⟨some .unlock, s, rfl, ps, es, hbooks, hinit, hinstalled⟩
      · refine ⟨some (.install s.entries.next), _, rfl, ps, es, ?_, hinit, hon, hnew, Heap.alloc_self _ _, hinstalled⟩
        exact ⟨hbooks.list, hbooks.stored.alloc _, hbooks.nodup, hbooks.valid, hbooks.old⟩
  | install p =>
      obtain ⟨hon, hnew, hp, hinstalled⟩ := hcall
      rw [akRegisterSignalHandler]
      by_cases hgranted : grants.sigaction ∧ 0 < signum ∧ signum < nsig
      · have hfresh : p ∉ ps := hbooks.notMem hp rfl
        rw [hgranted.1, sigaction_ok hgranted.2, hinstalled.2 signum hnew]
        refine ⟨some (.push p), { s with
          entries := s.entries.store p ⟨signum, handler, some (.foreign (actions signum))⟩
          dispositions := Function.update s.dispositions signum .akSignalDispatch }, by dsimp only; rw [hp]; rfl,
          ps, es, ?_, hinit, hon, hnew, Heap.store_self hp, hgranted.2, hinstalled.install signum⟩
        refine ⟨hbooks.list, hbooks.stored.congr ?_, hbooks.nodup, hbooks.valid, hbooks.old⟩
        exact fun q hq => Heap.store_of_ne (ne_of_mem_of_not_mem hq hfresh)
      · rw [sigaction, if_neg hgranted]
        exact ⟨some .unlock, s, rfl, ps, es, hbooks, hinit, hinstalled⟩
  | push p =>
      obtain ⟨hon, hnew, hp, hvalid, hinstalled⟩ := hcall
      obtain ⟨hroom, hitem⟩ := hkept p rfl
      obtain ⟨items, hlist⟩ := hbooks.list
      have hcount := hbooks.count_eq
      have hlength := hbooks.length_le
      rcases ListRefinement.listPush_cases hlist grants.push p (by omega) with
        ⟨handlers, items', hpush, hlist'⟩ | ⟨-, -, -, hrefused⟩
      · refine ⟨some .unlock, { s with handlers }, ?_, ps ++ [p], es ++ [_],
          hbooks.append hlist' hnew hp hvalid rfl, ?_, ?_⟩
        · rw [akRegisterSignalHandler, hpush]
          rfl
        · intro hoff
          exact absurd (hoff.symm.trans hon) Bool.false_ne_true
        · have hsignums : signums (es ++ [⟨signum, handler, some (.foreign (actions signum))⟩]) =
              insert signum (signums es) := signums_append
          rw [← hsignums] at hinstalled
          exact hinstalled
      · rcases hrefused with ⟨hgrowth, hfull⟩ | hnone
        · rcases hroom with hgranted | hspace
          · exact absurd (hgrowth.symm.trans hgranted) Bool.false_ne_true
          · omega
        · exact absurd (hnone.symm.trans hitem) Bool.false_ne_true
  | unlock => exact ⟨none, _, rfl, ps, es, hbooks, hinit, hcall, trivial⟩

theorem Books.found (h : Books actions s.handlers s.entries ps es) (hp : ps[k]? = some p) (hk : es[k]? = some entry) :
    s.entries.cells p = some entry ∧ (0 < entry.signum ∧ entry.signum < nsig) ∧
      entry.oldAction = some (.foreign (actions entry.signum)) := by
  obtain ⟨hkp, rfl⟩ := List.getElem?_eq_some_iff.mp hp
  obtain ⟨hke, rfl⟩ := List.getElem?_eq_some_iff.mp hk
  exact ⟨h.stored.getElem hkp hke, h.valid _ (List.getElem_mem hke), h.old _ (List.getElem_mem hke)⟩

theorem Books.signums_eraseIdx (h : Books actions s.handlers s.entries ps es) (hk : es[k]? = some entry) :
    signums (es.eraseIdx k) = signums es \ {entry.signum} := by
  obtain ⟨hlt, rfl⟩ := List.getElem?_eq_some_iff.mp hk
  have hlt' : k < (es.map Entry.signum).length := by rwa [List.length_map]
  have herase := h.nodup.erase_getElem k hlt'
  rw [List.getElem_map, List.eraseIdx_map] at herase
  ext n
  rw [signums, ← herase]
  exact (h.nodup.mem_erase_iff).trans and_comm

theorem Books.signums_drop (h : Books actions s.handlers s.entries ps es) (hk : es[k]? = some entry) :
    signums (es.drop (k + 1)) = signums (es.drop k) \ {entry.signum} := by
  obtain ⟨hlt, rfl⟩ := List.getElem?_eq_some_iff.mp hk
  have hnodup : ((es.drop k).map Entry.signum).Nodup := h.nodup.sublist ((List.drop_sublist k es).map _)
  rw [List.drop_eq_getElem_cons hlt] at hnodup ⊢
  obtain ⟨hne, -⟩ := List.nodup_cons.mp hnodup
  ext n
  constructor
  · intro hn
    exact ⟨List.mem_cons_of_mem _ hn, fun heq => hne (heq ▸ hn)⟩
  · rintro ⟨hn, hneq⟩
    exact (List.mem_cons.mp hn).resolve_left hneq

theorem Books.eraseIdx (h : Books actions s.handlers s.entries ps es) {handlers : ListModel.State Nat}
    {items : List Nat} (hlist : ListOk handlers items (ps.eraseIdx k)) :
    Books actions handlers s.entries (ps.eraseIdx k) (es.eraseIdx k) := by
  have hsub := List.eraseIdx_sublist es k
  refine ⟨⟨items, hlist⟩, ?_, h.nodup.sublist (hsub.map _), ?_, ?_⟩
  · rw [Heap.Stores, ← List.eraseIdx_map, ← List.eraseIdx_map, h.stored]
  · exact fun entry hentry => h.valid entry (hsub.subset hentry)
  · exact fun entry hentry => h.old entry (hsub.subset hentry)

theorem unregister_after (hbooks : Books actions s.handlers s.entries ps es) (hinit : s.initialized = false → es = [])
    (grants : Grants) {place : UnregisterPlace} (hcall : CallOk actions s ps es (.unregister signum place))
    (hwait : place = .lock → s.mutex = none) (hkept : ∀ p k, place = .restore p k → grants.sigaction = true) :
    ∃ next s', akUnregisterSignalHandler () s grants signum place = some (next, s') ∧
      After actions (.unregister signum place) s' (next.map (.unregister signum)) := by
  cases place with
  | lock => exact ⟨some .check, _, if_pos (hwait rfl), ps, es, hbooks, hinit, hcall⟩
  | check =>
      rw [akUnregisterSignalHandler]
      split_ifs with hoff
      · refine ⟨some .unlock, s, rfl, ps, es, hbooks, hinit, ?_, hcall⟩
        rw [hinit (by simpa using hoff)]
        exact List.not_mem_nil
      · exact ⟨some (.scan ListModel.listIter 0), s, rfl, ps, es, hbooks, hinit, rfl, List.not_mem_nil, hcall⟩
  | scan iter index =>
      obtain ⟨rfl, hnew, hinstalled⟩ := hcall
      rcases hbooks.nextEntry ⟨index, true⟩ with ⟨p, entry, -, hp, hentry, -, hnext⟩ | ⟨hend, hnext⟩
      · by_cases heq : entry.signum = signum
        · refine ⟨some (.restore p index), s, ?_, ps, es, hbooks, hinit, ⟨entry, hp, hentry, heq⟩, hinstalled⟩
          rw [akUnregisterSignalHandler, hnext]
          exact if_pos heq
        · refine ⟨some (.scan ⟨index + 1, true⟩ (index + 1)), s, ?_, ps, es, hbooks, hinit, rfl,
            notMem_take_succ hnew hentry heq, hinstalled⟩
          rw [akUnregisterSignalHandler, hnext]
          exact if_neg heq
      · refine ⟨some .unlock, s, ?_, ps, es, hbooks, hinit, ?_, hinstalled⟩
        · rw [akUnregisterSignalHandler, hnext]
          rfl
        · rwa [List.take_of_length_le (hend rfl)] at hnew
  | restore p index =>
      obtain ⟨⟨entry, hp, hentry, rfl⟩, hinstalled⟩ := hcall
      obtain ⟨hcell, hvalid, hold⟩ := hbooks.found hp hentry
      refine ⟨some (.remove index), { s with
        dispositions := Function.update s.dispositions entry.signum (.foreign (actions entry.signum)) }, ?_, ps, es,
        hbooks, hinit, ⟨entry, hentry, rfl⟩, hinstalled.restore entry.signum⟩
      rw [akUnregisterSignalHandler, hcell]
      dsimp only [Option.bind_eq_bind, Option.bind_some]
      rw [hold, Option.bind_some, hkept p index rfl, sigaction_ok hvalid]
  | remove index =>
      obtain ⟨⟨entry, hentry, rfl⟩, hinstalled⟩ := hcall
      obtain ⟨items, hlist⟩ := hbooks.list
      obtain ⟨code, handlers, items', ps', hremove, hlist', houtcome⟩ := listRemove_ok hlist grants.push index
      have hlt : index < ps.length := by
        rw [hbooks.stored.length_eq]
        exact (List.getElem?_eq_some_iff.mp hentry).1
      obtain ⟨-, -, rfl⟩ := houtcome.resolve_right fun hout => by omega
      rw [← hbooks.signums_eraseIdx hentry] at hinstalled
      refine ⟨some .unlock, { s with handlers }, ?_, _, _, hbooks.eraseIdx hlist', ?_, ?_, hinstalled⟩
      · rw [akUnregisterSignalHandler, hremove]
        rfl
      · intro hoff
        rw [hinit hoff, List.eraseIdx_nil]
      · rw [hbooks.signums_eraseIdx hentry]
        exact fun hmem => hmem.2 rfl
  | unlock => exact ⟨none, _, rfl, ps, es, hbooks, hinit, hcall.2, hcall.1⟩

theorem deinit_after (hbooks : Books actions s.handlers s.entries ps es) (hinit : s.initialized = false → es = [])
    (grants : Grants) {place : DeinitPlace} (hcall : CallOk actions s ps es (.deinit place))
    (hwait : place = .lock → s.mutex = none)
    (hkept : ∀ p iter, place = .restore p iter → grants.sigaction = true) :
    ∃ next s', akSignalHandlersDeinit () s grants place = some (next, s') ∧
      After actions (.deinit place) s' (next.map .deinit) := by
  cases place with
  | enter =>
      rw [akSignalHandlersDeinit]
      split_ifs with hoff
      · exact ⟨none, s, rfl, ps, es, hbooks, hinit, hcall, hinit (by simpa using hoff)⟩
      · exact ⟨some .lock, s, rfl, ps, es, hbooks, hinit, hcall⟩
  | lock => exact ⟨some (.scan ListModel.listIter), _, if_pos (hwait rfl), ps, es, hbooks, hinit, rfl, hcall⟩
  | scan iter =>
      obtain ⟨hvalid, hinstalled⟩ := hcall
      rcases hbooks.nextEntry iter with ⟨p, entry, -, hp, hentry, -, hnext⟩ | ⟨hend, hnext⟩
      · refine ⟨some (.restore p { iter with index := iter.index + 1 }), s, ?_, ps, es, hbooks, hinit, iter.index,
          entry, by rw [hvalid], hp, hentry, hinstalled⟩
        rw [akSignalHandlersDeinit, hnext]
        rfl
      · refine ⟨some .finish, s, ?_, ps, es, hbooks, hinit, ?_⟩
        · rw [akSignalHandlersDeinit, hnext]
          rfl
        · rw [List.drop_of_length_le (hend hvalid)] at hinstalled
          exact ⟨by simp, fun n _ => hinstalled.2 n List.not_mem_nil⟩
  | restore p iter =>
      obtain ⟨k, entry, rfl, hp, hentry, hinstalled⟩ := hcall
      obtain ⟨hcell, hvalid, hold⟩ := hbooks.found hp hentry
      have hrestored := hinstalled.restore entry.signum
      rw [← hbooks.signums_drop hentry] at hrestored
      refine ⟨some (.scan ⟨k + 1, true⟩), { s with
        dispositions := Function.update s.dispositions entry.signum (.foreign (actions entry.signum)) }, ?_, ps, es,
        hbooks, hinit, rfl, hrestored⟩
      rw [akSignalHandlersDeinit, hcell]
      dsimp only [Option.bind_eq_bind, Option.bind_some]
      rw [hold, Option.bind_some, hkept p _ rfl, sigaction_ok hvalid]
  | finish =>
      obtain ⟨items, hlist⟩ := hbooks.list
      obtain ⟨handlers, hdeinit, hempty⟩ := listDeinit_ok hlist
      refine ⟨some .unlock, { s with handlers, initialized := false }, ?_, [], [],
        ⟨⟨[], hempty⟩, rfl, List.nodup_nil, by simp, by simp⟩, fun _ => rfl, rfl, by simp [signums],
        fun n _ => hcall.2 n (by simp)⟩
      rw [akSignalHandlersDeinit, hdeinit]
      rfl
  | unlock => exact ⟨none, _, rfl, ps, es, hbooks, hinit, hcall.2, hcall.1⟩

end Calls

inductive Nested (idle : Prop) (ok : Frame → Prop) : List Frame → Prop
  | none (h : idle) : Nested idle ok []
  | call (frame : Frame) (h : ok frame) : Nested idle ok [frame]
  | signal (signum : Int) (place : DispatchPlace) (stack : List Frame) (h : Nested idle ok stack) :
    Nested idle ok (.dispatch signum place :: stack)

def Inv (actions : Int → α) (s : Process Unit α) (ps : List Nat) (es : List (Entry α)) : Prop :=
  Books actions s.signals.handlers s.signals.entries ps es ∧ (s.signals.initialized = false → es = []) ∧
    Nested (Installed actions s.signals.dispositions (signums es)) (CallOk actions s.signals ps es) (s.threads ())

section Runs

variable {actions : Int → α} {s s' : Process Unit α} {ps : List Nat} {es : List (Entry α)} {grants : Grants}
  {frame : Frame} {stack : List Frame} {events : List (Event Unit)}

theorem Nested.idle {idle : Prop} {ok : Frame → Prop} (h : Nested idle ok stack)
    (hidle : ∀ frame ∈ stack, ∃ signum place, frame = .dispatch signum place)
    (hok : ∀ signum place, ¬ok (.dispatch signum place)) : idle := by
  induction h with
  | none h => exact h
  | call frame h =>
      obtain ⟨signum, place, rfl⟩ := hidle frame (List.mem_singleton.mpr rfl)
      exact absurd h (hok signum place)
  | signal signum place stack _ ih => exact ih fun frame hframe => hidle frame (List.mem_cons_of_mem _ hframe)

theorem frame_after (hbooks : Books actions s.signals.handlers s.signals.entries ps es)
    (hinit : s.signals.initialized = false → es = []) (hcall : CallOk actions s.signals ps es frame)
    (hwait : Frame.locks frame → s.signals.mutex = none) (hkept : keptEvent s (.ran () frame grants)) :
    ∃ next signals, frameStep () s.signals grants frame = some (next, signals) ∧ After actions frame signals next := by
  cases frame with
  | register signum handler place =>
      obtain ⟨next, signals, hstep, hafter⟩ := register_after hbooks hinit grants hcall
        (by rintro rfl; exact hwait rfl) (by rintro p rfl; simpa [keptEvent] using hkept)
      exact ⟨_, signals, by rw [frameStep, hstep]; rfl, hafter⟩
  | unregister signum place =>
      obtain ⟨next, signals, hstep, hafter⟩ := unregister_after hbooks hinit grants hcall
        (by rintro rfl; exact hwait rfl) (by rintro p k rfl; exact hkept)
      exact ⟨_, signals, by rw [frameStep, hstep]; rfl, hafter⟩
  | deinit place =>
      obtain ⟨next, signals, hstep, hafter⟩ := deinit_after hbooks hinit grants hcall
        (by rintro rfl; exact hwait rfl) (by rintro p iter rfl; exact hkept)
      exact ⟨_, signals, by rw [frameStep, hstep]; rfl, hafter⟩
  | init =>
      obtain ⟨rfl, hinstalled⟩ := hcall
      refine ⟨none, _, rfl, [], [], ⟨⟨[], listInit_ok _⟩, rfl, List.nodup_nil, nofun, nofun⟩, fun _ => rfl, hinstalled,
        trivial⟩
  | dispatch signum place => exact hcall.elim

theorem dispatch_after (hbooks : Books actions s.signals.handlers s.signals.entries ps es) (grants : Grants)
    (signum : Int) (place : DispatchPlace) (hwait : place = .lock → s.signals.mutex = none) :
    ∃ next mutex, akSignalDispatch () s.signals grants signum place = some (next, { s.signals with mutex }) := by
  cases place with
  | lock => exact ⟨some .check, some (), if_pos (hwait rfl)⟩
  | check =>
      rw [akSignalDispatch]
      split_ifs
      · exact ⟨some .unlock, _, rfl⟩
      · exact ⟨some (.scan ListModel.listIter), _, rfl⟩
  | scan iter =>
      rw [akSignalDispatch]
      rcases hbooks.nextEntry iter with ⟨p, entry, -, -, -, -, hnext⟩ | ⟨-, hnext⟩
      · rw [hnext]
        dsimp only [Option.bind_eq_bind, Option.bind_some]
        cases entry.handler with
        | none => exact ⟨_, _, rfl⟩
        | some handler =>
            dsimp only
            split_ifs
            · exact ⟨_, _, rfl⟩
            · exact ⟨_, _, rfl⟩
      · rw [hnext]
        exact ⟨some .unlock, _, rfl⟩
  | invoke handler iter => exact ⟨some (.scan iter), _, rfl⟩
  | unlock => exact ⟨none, none, rfl⟩

theorem Inv.run (h : Inv actions s ps es) (htop : s.threads () = frame :: stack)
    (hwait : Frame.locks frame → s.signals.mutex = none) (hkept : keptEvent s (.ran () frame grants)) :
    ∃ next signals ps' es', frameStep () s.signals grants frame = some (next, signals) ∧
      Inv actions ⟨signals, Function.update s.threads () (next.toList ++ stack)⟩ ps' es' ∧
      (next.toList ++ stack = [] → Returned es' frame) := by
  obtain ⟨hbooks, hinit, hnested⟩ := h
  rw [htop] at hnested
  cases hnested with
  | call frame hcall =>
      obtain ⟨next, signals, hstep, ps', es', hbooks', hinit', hnext⟩ := frame_after hbooks hinit hcall hwait hkept
      refine ⟨next, signals, ps', es', hstep, ⟨hbooks', hinit', ?_⟩, ?_⟩
      · dsimp only
        rw [Function.update_self, List.append_nil]
        cases next with
        | none => exact .none hnext.1
        | some frame => exact .call frame hnext
      · intro hempty
        cases next with
        | none => exact hnext.2
        | some frame => cases hempty
  | signal signum place stack hrest =>
      obtain ⟨next, mutex, hstep⟩ := dispatch_after hbooks grants signum place (by rintro rfl; exact hwait rfl)
      refine ⟨next.map (.dispatch signum), { s.signals with mutex }, ps, es, by rw [frameStep, hstep]; rfl,
        ⟨hbooks, hinit, ?_⟩, fun _ => trivial⟩
      dsimp only
      rw [Function.update_self]
      cases next with
      | none => exact hrest
      | some place => exact .signal signum place stack hrest

theorem events_singleton (hs : Step s events s') : ∃ e, events = [e] := by
  cases hs <;> exact ⟨_, rfl⟩

theorem Inv.step (h : Inv actions s ps es) (hs : Step s events s') (hkept : Kept s events) :
    ∃ ps' es', Inv actions s' ps' es' ∧
      ∀ frame grants, events = [.ran () frame grants] → s'.threads () = [] → Returned es' frame := by
  cases hs with
  | call i call hidle =>
      obtain ⟨hbooks, hinit, hnested⟩ := h
      rw [hidle] at hnested
      cases hnested with
      | none hinstalled =>
          refine ⟨ps, es, ⟨hbooks, hinit, ?_⟩, fun _ _ heq => by cases heq⟩
          dsimp only
          rw [Function.update_self]
          refine .call _ ?_
          cases call with
          | register | unregister | deinit => exact hinstalled
          | init => exact ⟨hinit (by simpa [keptEvent] using hkept _ (List.mem_singleton.mpr rfl)), hinstalled⟩
  | deliver i signum hinstalled hblocked =>
      obtain ⟨hbooks, hinit, hnested⟩ := h
      refine ⟨ps, es, ⟨hbooks, hinit, ?_⟩, fun _ _ heq => by cases heq⟩
      dsimp only
      rw [Function.update_self]
      exact .signal signum .lock _ hnested
  | run i frame stack grants next signals htop hstep =>
      have hwait : Frame.locks frame → s.signals.mutex = none := by
        intro hlocks
        cases frameStep_mutexStep hstep with
        | lock _ _ _ _ hfree => exact hfree
        | outside _ hnot => exact absurd (hnot.symm.trans hlocks) Bool.false_ne_true
        | inside _ hholds | unlock hholds =>
            exact absurd ((holds_of_locks hlocks).symm.trans hholds) Bool.false_ne_true
      obtain ⟨next', signals', ps', es', hstep', hinv, hreturned⟩ :=
        h.run htop hwait (hkept _ (List.mem_singleton.mpr rfl))
      rw [hstep] at hstep'
      cases hstep'
      refine ⟨ps', es', hinv, ?_⟩
      intro frame' grants' heq hempty
      cases heq
      dsimp only at hempty
      rw [Function.update_self] at hempty
      exact hreturned hempty

end Runs

/-- In every run whose steps keep what the handlers rely on, a signal without an
entry has its first action whenever the thread is in no call; so has a signal that
has been unregistered, and every signal after a deinitialization. -/
theorem dispositions_restored {actions : Int → α} {trace : List (Event Unit)} {s : Process Unit α}
    (hrun : Run (guarded Kept Step) (start actions) trace s) :
    (Idle s → ∀ signum, ¬Registered s.signals signum → s.signals.dispositions signum = .foreign (actions signum)) ∧
      (∀ signum place grants, trace.getLast? = some (.ran () (.unregister signum place) grants) →
        s.threads () = [] → s.signals.dispositions signum = .foreign (actions signum)) ∧
      (∀ place grants, trace.getLast? = some (.ran () (.deinit place) grants) → s.threads () = [] →
        ∀ signum, s.signals.dispositions signum = .foreign (actions signum)) ∧
      ∀ frame stack grants, s.threads () = frame :: stack → (Frame.locks frame → s.signals.mutex = none) →
        keptEvent s (.ran () frame grants) → (frameStep () s.signals grants frame).isSome := by
  obtain ⟨ps, es, hinv, hreturned⟩ : ∃ ps es, Inv actions s ps es ∧
      ∀ frame grants, trace.getLast? = some (.ran () frame grants) → s.threads () = [] → Returned es frame := by
    apply hrun.invariant (P := fun trace s => ∃ ps es, Inv actions s ps es ∧
      ∀ frame grants, trace.getLast? = some (.ran () frame grants) → s.threads () = [] → Returned es frame)
    · have hempty : Books actions ⟨ListModel.listInit, Heap.empty Nat⟩ (Heap.empty (Entry α)) [] [] :=
        ⟨⟨[], listInit_ok _⟩, rfl, List.nodup_nil, nofun, nofun⟩
      refine ⟨[], [], ⟨hempty, fun _ => rfl, .none ⟨nofun, fun _ _ => rfl⟩⟩, ?_⟩
      intro frame grants hlast
      cases hlast
    · rintro trace s events s' ⟨ps, es, hinv, -⟩ ⟨hs, hkept⟩
      obtain ⟨ps', es', hinv', hreturned⟩ := hinv.step hs hkept
      obtain ⟨e, rfl⟩ := events_singleton hs
      refine ⟨ps', es', hinv', ?_⟩
      intro frame grants hlast
      rw [List.getLast?_concat] at hlast
      cases hlast
      exact hreturned frame grants rfl
  have hidle : Idle s → Installed actions s.signals.dispositions (signums es) := fun hidle =>
    hinv.2.2.idle hidle fun _ _ => id
  have hquiet : s.threads () = [] → Idle s := by
    intro hempty frame hframe
    rw [hempty] at hframe
    cases hframe
  refine ⟨?_, ?_, ?_, ?_⟩
  · intro hno signum hnew
    rw [hinv.1.registered_iff] at hnew
    exact (hidle hno).2 signum hnew
  · intro signum place grants hlast hempty
    exact (hidle (hquiet hempty)).2 signum (hreturned _ _ hlast hempty)
  · intro place grants hlast hempty signum
    have hnone : es = [] := hreturned _ _ hlast hempty
    refine (hidle (hquiet hempty)).2 signum ?_
    rw [hnone]
    exact List.not_mem_nil
  · intro frame stack grants htop hwait hkept
    obtain ⟨next, signals, -, -, hstep, -⟩ := hinv.run htop hwait hkept
    rw [hstep, Option.isSome_some]

def keptMove [DecidableEq α] (s : Process Unit α) (m : Move) : Option (List (Event Unit) × Process Unit α) :=
  match move s m with
  | none => none
  | some (events, s') => if events.all (keptEvent s) then some (events, s') else none

theorem step_of_keptMove [DecidableEq α] (s : Process Unit α) (m : Move) (events : List (Event Unit))
    (s' : Process Unit α) (h : keptMove s m = some (events, s')) : guarded Kept Step s events s' := by
  unfold keptMove at h
  split at h
  · cases h
  · rename_i hmove
    split_ifs at h with hkept
    cases h
    exact ⟨step_of_move s m events s' hmove, fun e he => List.all_eq_true.mp hkept e he⟩

/-- A signal is registered and unregistered, and has its first action again. -/
theorem registered_then_restored : ∃ trace, ∃ s : Process Unit Nat,
    Run (guarded Kept Step) (start fun _ => 7) trace s ∧
      Event.ran () (.register 2 (some 0) (.push 0)) allGranted ∈ trace ∧ s.signals.dispositions 2 = .foreign 7 := by
  have hsome : (script keptMove ([], start fun _ => 7) (registering ++
      Move.call (.unregister 2) :: List.replicate 6 (Move.run allGranted))).isSome := by decide +kernel
  have hpushed : Event.ran () (.register 2 (some 0) (.push 0)) allGranted ∈ (Option.get _ hsome).1 := by
    decide +kernel +revert
  have hrun := Run.start.script step_of_keptMove _ (Option.some_get hsome).symm
  exact ⟨_, _, hrun, hpushed, (dispositions_restored hrun).2.1 2 .unlock allGranted rfl rfl⟩

/-- The push of a registration is refused its item, or the restoring `sigaction` of
a deregistration fails: both leave the dispatcher installed without an entry. -/
theorem dispatcher_left_installed :
    (∃ trace, ∃ s : Process Unit Nat, Run Step (start fun _ => 7) trace s ∧
      trace.getLast? = some (.ran () (.unregister 2 .unlock) allGranted) ∧ s.threads () = [] ∧
      s.signals.dispositions 2 = .akSignalDispatch) ∧
    ∃ trace, ∃ s : Process Unit Nat, Run Step (start fun _ => 7) trace s ∧
      trace.getLast? = some (.ran () (.deinit .unlock) allGranted) ∧ s.threads () = [] ∧
      s.signals.dispositions 2 = .akSignalDispatch := by
  have hpush : (script move ([], start fun _ => 7) (installing ++
      [Move.run ⟨true, true, ⟨true, false, true⟩⟩, Move.run allGranted, Move.call (.unregister 2)] ++
      List.replicate 4 (Move.run allGranted))).isSome := by decide +kernel
  have hrestore : (script move ([], start fun _ => 7) (registering ++ Move.call .deinit ::
      List.replicate 3 (Move.run allGranted) ++ Move.run ⟨true, false, ⟨true, true, true⟩⟩ ::
      List.replicate 3 (Move.run allGranted))).isSome := by decide +kernel
  constructor
  · exact ⟨_, _, Run.start.script step_of_move _ (Option.some_get hpush).symm, rfl, rfl, rfl⟩
  · exact ⟨_, _, Run.start.script step_of_move _ (Option.some_get hrestore).symm, rfl, rfl, rfl⟩

end Ak24.SignalDispositions
