import Ak24.SourcelocBooks

namespace Ak24.SourcelocRefcount

open Objects Transition SourcelocModel SourcelocBooks

variable {ι : Type} [Fintype ι] [DecidableEq ι]

def busy (f : Nat) : Phase → Prop
  | .release (.test _ _) => False
  | .new (.count _ _) => False
  | p => phaseFile p = some f

def ends (f : Nat) : Event ι → Prop
  | .destroyed _ g => g = f
  | .discarded g => g = f
  | _ => False

def uses (f : Nat) : Event ι → Prop
  | .used g => g = f
  | .destroyed _ g => g = f
  | .discarded g => g = f
  | _ => False

def stepsLeft : Phase → Nat
  | .idle => 0
  | .new (.alloc _ _) => 8
  | .new (.build .initLock _ _ _) => 7
  | .new (.build .internName _ _ _) => 6
  | .new (.build .allocContents _ _ _) => 5
  | .new (.build .computeLines _ _ _) => 4
  | .new (.build .freeContents _ _ _) => 3
  | .new (.build .destroyLock _ _ _) => 2
  | .new (.build .freeFile _ _ _) => 1
  | .new (.count _ _) => 1
  | .retain _ => 1
  | .release (.decrement _) => 7
  | .release (.test _ _) => 6
  | .release (.destroy .uncount _) => 5
  | .release (.destroy .freeLines _) => 4
  | .release (.destroy .freeContents _) => 3
  | .release (.destroy .destroyLock _) => 2
  | .release (.destroy .freeFile _) => 1

section Effects

omit [Fintype ι] [DecidableEq ι]

variable {shared shared' : Shared} {t t' : Thread} {i : ι} {granted : Bool} {events : List (Event ι)} {p : Phase}

inductive Effect (i : ι) (shared : Shared) (p : Phase) : Shared → List (Event ι) → Prop
  | pass : Effect i shared p shared []
  | alloc : Effect i shared p { shared with files := shared.files.alloc .fresh } []
  | add (f : Nat) (g : SourcelocSystem) : Effect i shared p { shared with g } [.created f]
  | touch (f : Nat) (g : SourcelocSystem) (hp : busy f p) : Effect i shared p { shared with g } [.used f]
  | write (f : Nat) (file : SourceFile) (hp : busy f p) : Effect i shared p (shared.write f file) [.used f]
  | retain (f : Nat) (file : SourceFile) (hp : p = .retain f) :
    Effect i shared p (shared.write f file) [.used f, .retained f]
  | decrement (f left : Nat) (file : SourceFile) (hp : p = .release (.decrement f)) :
    Effect i shared p (shared.write f file) [.used f, .dropped i f left]
  | discard (f : Nat) (hp : busy f p) :
    Effect i shared p { shared with files := shared.files.free f } [.discarded f]
  | destroy (f : Nat) (hp : p = .release (.destroy .freeFile f)) :
    Effect i shared p { shared with files := shared.files.free f } [.destroyed i f]

theorem new_effect {q : NewPhase} (h : akSourceFileNew shared t granted q = (shared', t', events)) :
    Effect i shared (.new q) shared' events ∧ stepsLeft t'.phase < stepsLeft (.new q) := by
  cases q with
  | alloc filename contents =>
      rw [akSourceFileNew] at h
      split_ifs at h <;> cases h
      · exact ⟨.alloc, by simp [stepsLeft, Thread.goto]⟩
      · exact ⟨.pass, by simp [stepsLeft, Thread.goto]⟩
  | build stage f filename contents =>
      cases stage with
      | initLock =>
          rw [akSourceFileNew] at h
          split_ifs at h <;> cases h
          · exact ⟨.write f _ rfl, by simp [stepsLeft, Thread.goto]⟩
          · exact ⟨.touch f shared.g rfl, by simp [stepsLeft, Thread.goto]⟩
      | internName | allocContents =>
          rw [akSourceFileNew] at h
          split_ifs at h <;> cases h
          · exact ⟨.write f _ rfl, by simp [stepsLeft, Thread.goto]⟩
          · exact ⟨.write f _ rfl, by simp [stepsLeft, Thread.goto]⟩
      | computeLines =>
          rw [akSourceFileNew] at h
          split at h <;> cases h
          · exact ⟨.write f _ rfl, by simp [stepsLeft, Thread.goto]⟩
          · exact ⟨.write f _ rfl, by simp [stepsLeft, Thread.goto]⟩
      | freeContents | destroyLock =>
          cases h
          exact ⟨.write f _ rfl, by simp [stepsLeft, Thread.goto]⟩
      | freeFile =>
          cases h
          exact ⟨.discard f rfl, by simp [stepsLeft, Thread.goto]⟩
  | count f len =>
      cases h
      exact ⟨.add f _, by simp [stepsLeft, Thread.goto]⟩

theorem release_effect {q : ReleasePhase} (h : akSourceFileRelease shared t i q = (shared', t', events)) :
    Effect i shared (.release q) shared' events ∧ stepsLeft t'.phase < stepsLeft (.release q) := by
  cases q with
  | decrement f =>
      cases h
      exact ⟨.decrement f _ _ rfl, by simp [stepsLeft, Thread.goto]⟩
  | test f refCount =>
      cases h
      refine ⟨.pass, ?_⟩
      split_ifs <;> simp [stepsLeft, Thread.goto]
  | destroy stage f =>
      cases stage with
      | uncount =>
          cases h
          exact ⟨.touch f _ rfl, by simp [stepsLeft, Thread.goto]⟩
      | freeLines | freeContents | destroyLock =>
          cases h
          exact ⟨.write f _ rfl, by simp [stepsLeft, Thread.goto]⟩
      | freeFile =>
          cases h
          exact ⟨.destroy f rfl, by simp [stepsLeft, Thread.goto]⟩

theorem call_effect (h : call shared t i granted = some (shared', t', events)) :
    Effect i shared t.phase shared' events ∧ stepsLeft t'.phase < stepsLeft t.phase := by
  unfold call at h
  cases hp : t.phase with
  | idle =>
      rw [hp] at h
      cases h
  | new q =>
      rw [hp] at h
      exact new_effect (Option.some.inj h)
  | retain f =>
      rw [hp] at h
      cases h
      exact ⟨.retain f _ rfl, by simp [stepsLeft, Thread.goto]⟩
  | release q =>
      rw [hp] at h
      exact release_effect (Option.some.inj h)

theorem Effect.gone (h : Effect i shared p shared' events) {f : Nat} (hf : f < shared.files.next)
    (hgone : shared.files.cells f = none) : f < shared'.files.next ∧ shared'.files.cells f = none := by
  cases h with
  | pass | add | touch => exact ⟨hf, hgone⟩
  | alloc => exact ⟨Nat.lt_succ_of_lt hf, (Heap.alloc_of_ne hf.ne).trans hgone⟩
  | write g | retain g | decrement g =>
      refine ⟨hf, ?_⟩
      by_cases hfg : f = g
      · subst f
        simp [Shared.write, Heap.store, hgone]
      · exact (Heap.store_of_ne hfg).trans hgone
  | discard g | destroy g =>
      refine ⟨hf, ?_⟩
      by_cases hfg : f = g
      · subst f
        exact Heap.free_self _ _
      · exact (Heap.free_of_ne hfg).trans hgone

theorem Effect.busy_of_use (h : Effect i shared p shared' events) {f : Nat} {e : Event ι} (he : e ∈ events)
    (huse : uses f e) : busy f p := by
  cases h with
  | pass | alloc => cases he
  | add g =>
      cases List.mem_singleton.mp he
      cases huse
  | touch g _ hp | write g _ hp | discard g hp =>
      cases List.mem_singleton.mp he
      cases huse
      exact hp
  | retain g _ hp | decrement g _ _ hp =>
      simp only [List.mem_cons, List.not_mem_nil, or_false] at he
      rcases he with rfl | rfl
      · cases huse
        rw [hp]
        rfl
      · cases huse
  | destroy g hp =>
      cases List.mem_singleton.mp he
      cases huse
      rw [hp]
      rfl

theorem Effect.ended (h : Effect i shared p shared' events) {f : Nat} {e : Event ι} (he : e ∈ events)
    (hend : ends f e) : shared'.files.next = shared.files.next ∧ shared'.files.cells f = none ∧ events = [e] := by
  cases h with
  | pass | alloc => cases he
  | add g | touch g | write g =>
      cases List.mem_singleton.mp he
      cases hend
  | retain g | decrement g =>
      simp only [List.mem_cons, List.not_mem_nil, or_false] at he
      rcases he with rfl | rfl <;> cases hend
  | discard g | destroy g =>
      cases List.mem_singleton.mp he
      cases hend
      exact ⟨rfl, Heap.free_self _ _, rfl⟩

end Effects

section Runs

variable {trace events : List (Event ι)} {s s' : System ι} {counted : Finset Nat}

omit [Fintype ι] in
theorem step_effect (hs : Step s events s') : ∃ i, Effect i s.shared (s.threads i).phase s'.shared events := by
  cases hs with
  | beginNew i | beginRetain i | beginRelease i | handOver i => exact ⟨i, .pass⟩
  | call i granted shared t _ hcall => exact ⟨i, (call_effect hcall).1⟩

theorem live_of_busy (h : Books trace s.shared s.threads counted) {i : ι} {f : Nat}
    (hbusy : busy f (s.threads i).phase) : ∃ file, s.shared.files.cells f = some file := by
  apply (h.files f).exists_live
  have hm := role_le_among s.threads i .making f
  have hr := role_le_among s.threads i .reference f
  have he := role_le_among s.threads i .ending f
  have hphase := h.phases i
  unfold PhaseOk at hphase
  cases hp : (s.threads i).phase with
  | idle =>
      rw [hp] at hbusy
      cases hbusy
  | new p =>
      rw [hp] at hbusy
      cases p with
      | alloc | count => cases hbusy
      | build =>
          cases hbusy
          simp only [role, hp, phaseRole, if_true] at hm
          omega
  | retain g =>
      rw [hp] at hbusy hphase
      cases hbusy
      simp only [role, hp, phaseRole, if_true] at hr
      omega
  | release p =>
      rw [hp] at hbusy
      cases p with
      | test => cases hbusy
      | decrement =>
          cases hbusy
          simp only [role, hp, phaseRole, if_true] at hr
          omega
      | destroy =>
          cases hbusy
          simp only [role, hp, phaseRole, if_true] at he
          omega

theorem uses_live (h : Books trace s.shared s.threads counted) (hs : Step s events s') {f : Nat} {e : Event ι}
    (he : e ∈ events) (huse : uses f e) : ∃ file, s.shared.files.cells f = some file := by
  obtain ⟨i, heffect⟩ := step_effect hs
  exact live_of_busy h (heffect.busy_of_use he huse)

omit [Fintype ι] [DecidableEq ι] in
theorem uses_of_ends {f : Nat} {e : Event ι} (h : ends f e) : uses f e := by
  cases e with
  | destroyed | discarded => exact h
  | _ => cases h

theorem no_use_after_free (hrun : Run (guarded FewReferences Step) (System.start ι) trace s) (f : Nat) :
    NoUseAfter (ends f) (uses f) trace := by
  refine Run.no_use_after (fun s => ∃ trace counted, Books trace s.shared s.threads counted)
    (fun s => f < s.shared.files.next ∧ s.shared.files.cells f = none) hrun ⟨_, _, books_start⟩ ?_ ?_ ?_ ?_
  · rintro s events s' ⟨trace, counted, h⟩ hs
    exact ⟨_, h.step hs⟩
  · rintro s events s' - ⟨hs, -⟩
    obtain ⟨i, heffect⟩ := step_effect hs
    by_cases hend : ∃ e ∈ events, ends f e
    · obtain ⟨e, he, hf⟩ := hend
      rw [(heffect.ended he hf).2.2]
      exact List.pairwise_singleton _ _
    · exact NoUseAfter.of_no_end fun e he hf => hend ⟨e, he, hf⟩
  · rintro s events s' ⟨trace, counted, h⟩ ⟨hs, -⟩ e he hf
    obtain ⟨i, heffect⟩ := step_effect hs
    obtain ⟨file, hfile⟩ := uses_live h hs he (uses_of_ends hf)
    obtain ⟨hnext, hnone, -⟩ := heffect.ended he hf
    exact ⟨hnext ▸ s.shared.files.lt_next hfile, hnone⟩
  · rintro s events s' ⟨trace, counted, h⟩ ⟨hs, -⟩ ⟨hlt, hnone⟩
    obtain ⟨i, heffect⟩ := step_effect hs
    refine ⟨heffect.gone hlt hnone, fun e he huse => ?_⟩
    obtain ⟨file, hfile⟩ := uses_live h hs he huse
    rw [hnone] at hfile
    cases hfile

theorem dropped_left (h : Books trace s.shared s.threads counted) (hs : Step s events s') {i : ι} {f n : Nat}
    (hmem : .dropped i f n ∈ events) : references s' f = n := by
  cases hs with
  | beginNew | beginRetain | beginRelease | handOver => cases hmem
  | call j granted shared t _ hcall =>
      have hphase : (s.threads j).phase = .release (.decrement f) := by
        have heffect := (call_effect hcall).1
        generalize (s.threads j).phase = p at heffect
        cases heffect <;> simp_all
      unfold call at hcall
      rw [hphase] at hcall
      cases hcall
      simp only [List.mem_cons, reduceCtorEq, Event.dropped.injEq, true_and, List.not_mem_nil, or_false, false_or]
        at hmem
      rw [hmem.2]
      exact (h.decrement hphase rfl).2

/-- A file is destroyed by the thread that has dropped its last reference. -/
theorem destroyed_last (h : Books trace s.shared s.threads counted) (hs : Step s events s') {i : ι} {f : Nat}
    (hmem : .destroyed i f ∈ events) : .dropped i f 0 ∈ trace ∧ references s f = 0 := by
  cases hs with
  | beginNew | beginRetain | beginRelease | handOver => cases hmem
  | call j granted shared t _ hcall =>
      have hphase : i = j ∧ (s.threads j).phase = .release (.destroy .freeFile f) := by
        have heffect := (call_effect hcall).1
        generalize (s.threads j).phase = p at heffect
        cases heffect <;> simp_all
      obtain ⟨rfl, hphase⟩ := hphase
      have hdropped := h.phases i
      simp only [PhaseOk, hphase] at hdropped
      exact ⟨hdropped, ((h.files f).alone (i := i) (by simp [role, phaseRole, hphase])).2.1⟩

end Runs

def liveFiles (s : System ι) : Finset Nat :=
  (Finset.range s.shared.files.next).filter fun f => (s.shared.files.cells f).isSome

omit [Fintype ι] [DecidableEq ι] in
theorem mem_liveFiles {s : System ι} {f : Nat} : f ∈ liveFiles s ↔ (s.shared.files.cells f).isSome := by
  rw [liveFiles, Finset.mem_filter, Finset.mem_range, and_iff_right_iff_imp, Option.isSome_iff_exists]
  rintro ⟨file, hfile⟩
  exact s.shared.files.lt_next hfile

omit [Fintype ι] [DecidableEq ι] in
theorem sum_live_le {s : System ι} {w : SourceFile → Nat} {live : Finset Nat}
    (hlive : ∀ f ∈ live, (s.shared.files.cells f).isSome)
    (hw : ∀ f ∈ live, w (s.shared.file f) ≤ (s.shared.file f).bytes) :
    ∑ f ∈ live, w (s.shared.file f) ≤ s.shared.files.total SourceFile.bytes := by
  have hbytes : ∀ f ∈ live, w (s.shared.file f) ≤ (s.shared.files.cells f).elim 0 SourceFile.bytes := by
    intro f hf
    obtain ⟨file, hfile⟩ := Option.isSome_iff_exists.mp (hlive f hf)
    have hle := hw f hf
    rw [file_eq hfile] at hle ⊢
    rw [hfile]
    exact hle
  apply (Finset.sum_le_sum hbytes).trans
  apply Finset.sum_le_sum_of_subset
  intro f hf
  obtain ⟨file, hfile⟩ := Option.isSome_iff_exists.mp (hlive f hf)
  exact Finset.mem_range.mpr (s.shared.files.lt_next hfile)

section Quiescence

variable {trace : List (Event ι)} {s : System ι} {counted : Finset Nat}

omit [DecidableEq ι] in
theorem among_idle (hidle : ∀ i, (s.threads i).phase = .idle) (r : Role) (hr : r ≠ .reference) (f : Nat) :
    among r f s.threads = 0 := by
  apply tally_eq_zero
  intro i
  rw [role, hidle i, phaseRole_idle, if_neg hr]

theorem live_iff (h : Books trace s.shared s.threads counted) (hidle : ∀ i, (s.threads i).phase = .idle)
    (f : Nat) :
    f ∈ liveFiles s ↔ 0 < references s f := by
  have hlive := (h.files f).live
  rw [among_idle hidle .making nofun, among_idle hidle .ending nofun] at hlive
  rw [mem_liveFiles, references]
  split_ifs at hlive with hsome
  · exact iff_of_true hsome (by omega)
  · exact iff_of_false hsome (by omega)

theorem destroyed_once (h : Books trace s.shared s.threads counted) (hidle : ∀ i, (s.threads i).phase = .idle)
    {f : Nat} (hcreated : .created f ∈ trace) : trace.countP (destroys f) = if references s f = 0 then 1 else 0 := by
  have hallotted := (h.files f).allotted
  have hsettled := (h.files f).settled
  have hpos := List.count_pos_iff.mpr hcreated
  rw [among_idle hidle .making nofun, among_idle hidle .adding nofun] at hallotted
  rw [among_idle hidle .adding nofun, among_idle hidle .ending nofun] at hsettled
  rw [references]
  split_ifs at hallotted ⊢ <;> omega

theorem stats_exact (h : Books trace s.shared s.threads counted) (hidle : ∀ i, (s.threads i).phase = .idle) :
    akSourcelocStats s.shared.g = ((liveFiles s).card, ∑ f ∈ liveFiles s, (s.shared.file f).length) := by
  have hcounted : counted = liveFiles s := by
    ext f
    rw [h.stats.mem_counted, mem_liveFiles, among_idle hidle .uncounted nofun, and_iff_left rfl]
  have hlive : ∀ f ∈ liveFiles s, (s.shared.files.cells f).isSome := fun f hf => mem_liveFiles.mp hf
  have hcard : (liveFiles s).card ≤ s.shared.files.total SourceFile.bytes := by
    rw [Finset.card_eq_sum_ones]
    apply sum_live_le (w := fun _ => 1) hlive
    intro f _
    simp only [SourceFile.bytes, structBytes]
    omega
  have hlength : ∑ f ∈ liveFiles s, (s.shared.file f).length ≤ s.shared.files.total SourceFile.bytes := by
    apply sum_live_le hlive
    intro f hf
    have hfilled := ((h.files f).counts ((live_iff h hidle f).mp hf)).2.2
    simp only [SourceFile.bytes]
    omega
  have hfits := h.fits
  rw [akSourcelocStats, h.stats.initialized, h.stats.fileCount, h.stats.totalBytes, hcounted,
    Nat.mod_eq_of_lt (by omega), Nat.mod_eq_of_lt (by omega)]
  rfl

end Quiescence

/-- What the reference counts are for: in every run the memory of a file is not
accessed after it is given back, a file is destroyed only by the thread whose
release dropped its last reference, and between calls exactly the files without
references are destroyed, once, and the statistics are those of the others. -/
theorem source_files_counted {trace : List (Event ι)} {s : System ι}
    (hrun : Run (guarded FewReferences Step) (System.start ι) trace s) :
    (∀ f, NoUseAfter (ends f) (uses f) trace) ∧
      (∀ events s', guarded FewReferences Step s events s' → ∀ i f,
        (.destroyed i f ∈ events → .dropped i f 0 ∈ trace ∧ references s f = 0) ∧
        (∀ n, .dropped i f n ∈ events → references s' f = n)) ∧
      (∀ i granted, (s.threads i).phase ≠ .idle → ∃ shared t events,
        call s.shared (s.threads i) i granted = some (shared, t, events) ∧
          stepsLeft t.phase < stepsLeft (s.threads i).phase) ∧
      ((∀ i, (s.threads i).phase = .idle) →
        (∀ f, .created f ∈ trace → trace.countP (destroys f) = if references s f = 0 then 1 else 0) ∧
        (∀ f, f ∈ liveFiles s ↔ 0 < references s f) ∧
        akSourcelocStats s.shared.g = ((liveFiles s).card, ∑ f ∈ liveFiles s, (s.shared.file f).length)) := by
  obtain ⟨counted, h⟩ := run_books hrun
  refine ⟨no_use_after_free hrun, ?_, ?_, ?_⟩
  · intro events s' hs i f
    exact ⟨fun hmem => destroyed_last h hs.1 hmem, fun n hmem => dropped_left h hs.1 hmem⟩
  · intro i granted hbusy
    obtain ⟨⟨shared, t, events⟩, hcall⟩ : ∃ result, call s.shared (s.threads i) i granted = some result := by
      unfold call
      cases hp : (s.threads i).phase with
      | idle => exact absurd hp hbusy
      | _ => exact ⟨_, rfl⟩
    exact ⟨shared, t, events, hcall, (call_effect hcall).2⟩
  · intro hidle
    exact ⟨fun f hcreated => destroyed_once h hidle hcreated, live_iff h hidle, stats_exact h hidle⟩

inductive Move
  | new (filename : String) (contents : List UInt8)
  | retain (f : Nat)
  | release (f : Nat)
  | step

def fits (s : System Unit) : Event Unit → Bool
  | .retained f => references s f + 1 < 2 ^ 32
  | _ => true

def next (s : System Unit) : Move → Option (List (Event Unit) × System Unit)
  | .new filename contents =>
    if (s.threads ()).phase = .idle then
      some ([], { s with
        threads := Function.update s.threads () ((s.threads ()).goto (.new (.alloc filename contents))) })
    else none
  | .retain f =>
    if (s.threads ()).phase = .idle ∧ 0 < (s.threads ()).held f then
      some ([], { s with threads := Function.update s.threads () ((s.threads ()).goto (.retain f)) })
    else none
  | .release f =>
    if (s.threads ()).phase = .idle ∧ 0 < (s.threads ()).held f then
      some ([], { s with
        threads := Function.update s.threads () (((s.threads ()).lose f).goto (.release (.decrement f))) })
    else none
  | .step =>
    match call s.shared (s.threads ()) () true with
    | none => none
    | some (shared, t, events) =>
      if events.all (fits s) then
        some (events, { s with shared, threads := Function.update s.threads () t })
      else none

theorem step_of_next (s : System Unit) (m : Move) (events : List (Event Unit)) (s' : System Unit)
    (h : next s m = some (events, s')) : guarded FewReferences Step s events s' := by
  cases m with
  | new filename contents =>
      simp only [next] at h
      split_ifs at h with hidle
      cases h
      exact ⟨.beginNew s () filename contents hidle, by simp [FewReferences]⟩
  | retain f =>
      simp only [next] at h
      split_ifs at h with hidle
      cases h
      exact ⟨.beginRetain s () f hidle.1 hidle.2, by simp [FewReferences]⟩
  | release f =>
      simp only [next] at h
      split_ifs at h with hidle
      cases h
      exact ⟨.beginRelease s () f hidle.1 hidle.2, by simp [FewReferences]⟩
  | step =>
      simp only [next] at h
      split at h
      · cases h
      · next shared t events' hcall =>
          split_ifs at h with hfits
          cases h
          exact ⟨.call s () true shared t events hcall, fun f hf => of_decide_eq_true (List.all_eq_true.mp hfits _ hf)⟩

def retainedOnce : List Move :=
  .new "a" [97] :: List.replicate 6 .step ++ [.retain 0, .step, .release 0, .step, .step] ++
    .release 0 :: List.replicate 7 .step

/-- The release of the last reference destroys the file. -/
theorem file_retained_released : ∃ trace, ∃ s : System Unit,
    Run (guarded FewReferences Step) (System.start Unit) trace s ∧
      trace.filter (fun e => e ≠ .used 0) =
        [.created 0, .retained 0, .dropped () 0 1, .dropped () 0 0, .destroyed () 0] ∧
      trace.countP (destroys 0) = 1 ∧ akSourcelocStats s.shared.g = (0, 0) ∧
      akSourcelocStats s.shared.g = ((liveFiles s).card, ∑ f ∈ liveFiles s, (s.shared.file f).length) := by
  have hscript : (Transition.script next ([], System.start Unit) retainedOnce).map
      (fun r => (r.1.filter fun e => e ≠ .used 0, (r.2.threads ()).phase, references r.2 0,
        akSourcelocStats r.2.shared.g)) =
      some ([.created 0, .retained 0, .dropped () 0 1, .dropped () 0 0, .destroyed () 0], .idle, 0, 0, 0) := by
    decide +kernel
  obtain ⟨⟨trace, s⟩, hr, hends⟩ := Option.map_eq_some_iff.mp hscript
  simp only [Prod.mk.injEq] at hends
  obtain ⟨hevents, hidle, hnone, hzero⟩ := hends
  have hrun := Run.start.script step_of_next retainedOnce hr
  obtain ⟨honce, -, hstats⟩ := (source_files_counted hrun).2.2.2 fun _ => hidle
  have hcreated : Event.created 0 ∈ trace := by
    have hmem : Event.created 0 ∈ trace.filter (fun e => e ≠ .used 0) := by rw [hevents]; exact List.mem_cons_self
    exact List.mem_of_mem_filter hmem
  have hdestroyed := honce 0 hcreated
  rw [hnone, if_pos rfl] at hdestroyed
  exact ⟨trace, s, hrun, hevents, hdestroyed, hzero, hstats⟩

end Ak24.SourcelocRefcount
