import Ak24.SignalModel
import Ak24.Transition

namespace Ak24.SignalDeadlock

open Objects Transition SignalModel

variable {ι α : Type}

def Frame.locks : Frame → Bool
  | .register _ _ .lock | .unregister _ .lock | .dispatch _ .lock | .deinit .lock => true
  | _ => false

def Frame.holds : Frame → Bool
  | .register _ _ .enter | .register _ _ .lock | .unregister _ .lock | .dispatch _ .lock | .init | .deinit .enter
  | .deinit .lock => false
  | _ => true

/-- The thread waits for the mutex that it holds. -/
def WaitsOnItself (s : Process ι α) (i : ι) : Prop :=
  s.signals.mutex = some i ∧ ∃ frame stack, s.threads i = frame :: stack ∧ Frame.locks frame

def Event.interrupts : Event ι → Bool
  | .delivered _ _ holding => holding
  | _ => false

section Steps

variable {i : ι} {s s' : Signals ι α} {grants : Grants} {frame : Frame} {next : Option Frame}

theorem holds_of_locks (h : Frame.locks frame) : Frame.holds frame = false := by
  unfold Frame.locks at h
  split at h <;> first | rfl | cases h

inductive MutexStep (i : ι) (s s' : Signals ι α) (frame : Frame) (next : Option Frame) : Prop
  | outside (hframe : Frame.holds frame = false) (hlocks : Frame.locks frame = false)
    (hnext : ∀ f ∈ next, Frame.holds f = false) (hmutex : s'.mutex = s.mutex)
  | lock (f : Frame) (hframe : Frame.locks frame) (hnext : next = some f) (hf : Frame.holds f)
    (hfree : s.mutex = none) (hmutex : s'.mutex = some i)
  | inside (f : Frame) (hframe : Frame.holds frame) (hnext : next = some f) (hf : Frame.holds f)
    (hmutex : s'.mutex = s.mutex)
  | unlock (hframe : Frame.holds frame) (hnext : next = none) (hmutex : s'.mutex = none)

theorem sigaction_mutex {signum : Int} {act old : Action α} {granted : Bool}
    (h : sigaction s signum act granted = some (old, s')) : s'.mutex = s.mutex := by
  unfold sigaction at h
  split_ifs at h
  cases h
  rfl

theorem register_mutexStep {signum : Int} {handler : Option Nat} {place : RegisterPlace}
    {next : Option RegisterPlace} (h : akRegisterSignalHandler i s grants signum handler place = some (next, s')) :
    MutexStep i s s' (.register signum handler place) (next.map (.register signum handler)) := by
  cases place with
  | enter =>
      simp only [akRegisterSignalHandler] at h
      split_ifs at h <;> cases h
      · exact .outside rfl rfl nofun rfl
      · exact .outside rfl rfl (by rintro f ⟨⟩; rfl) rfl
  | lock =>
      simp only [akRegisterSignalHandler] at h
      split_ifs at h with hfree
      cases h
      exact .lock _ rfl rfl rfl hfree rfl
  | scan iter =>
      simp only [akRegisterSignalHandler, Option.bind_eq_bind, Option.bind_eq_some_iff] at h
      obtain ⟨⟨entry, iter'⟩, -, h⟩ := h
      split at h
      · cases h
        exact .inside _ rfl rfl rfl rfl
      · split_ifs at h <;> cases h <;> exact .inside _ rfl rfl rfl rfl
  | update p =>
      simp only [akRegisterSignalHandler, Option.bind_eq_bind, Option.bind_eq_some_iff] at h
      obtain ⟨entry, -, h⟩ := h
      cases h
      exact .inside _ rfl rfl rfl rfl
  | create =>
      simp only [akRegisterSignalHandler] at h
      split_ifs at h <;> cases h <;> exact .inside _ rfl rfl rfl rfl
  | install p =>
      simp only [akRegisterSignalHandler] at h
      split at h
      · cases h
        exact .inside _ rfl rfl rfl rfl
      · rename_i old s₁ hsigaction
        simp only [Option.bind_eq_bind, Option.bind_eq_some_iff] at h
        obtain ⟨entry, -, h⟩ := h
        cases h
        have hmutex := sigaction_mutex hsigaction
        exact .inside _ rfl rfl rfl hmutex
  | push p =>
      simp only [akRegisterSignalHandler, Option.bind_eq_bind, Option.bind_eq_some_iff] at h
      obtain ⟨⟨code, handlers⟩, -, h⟩ := h
      cases h
      exact .inside _ rfl rfl rfl rfl
  | unlock =>
      cases h
      exact .unlock rfl rfl rfl

theorem unregister_mutexStep {signum : Int} {place : UnregisterPlace} {next : Option UnregisterPlace}
    (h : akUnregisterSignalHandler i s grants signum place = some (next, s')) :
    MutexStep i s s' (.unregister signum place) (next.map (.unregister signum)) := by
  cases place with
  | lock =>
      simp only [akUnregisterSignalHandler] at h
      split_ifs at h with hfree
      cases h
      exact .lock _ rfl rfl rfl hfree rfl
  | check =>
      simp only [akUnregisterSignalHandler] at h
      split_ifs at h <;> cases h <;> exact .inside _ rfl rfl rfl rfl
  | scan iter index =>
      simp only [akUnregisterSignalHandler, Option.bind_eq_bind, Option.bind_eq_some_iff] at h
      obtain ⟨⟨entry, iter'⟩, -, h⟩ := h
      split at h
      · cases h
        exact .inside _ rfl rfl rfl rfl
      · split_ifs at h <;> cases h <;> exact .inside _ rfl rfl rfl rfl
  | restore p index =>
      simp only [akUnregisterSignalHandler, Option.bind_eq_bind, Option.bind_eq_some_iff] at h
      obtain ⟨entry, -, old, -, h⟩ := h
      split at h <;> cases h
      · exact .inside _ rfl rfl rfl rfl
      · rename_i hsigaction
        exact .inside _ rfl rfl rfl (sigaction_mutex hsigaction)
  | remove index =>
      simp only [akUnregisterSignalHandler, Option.bind_eq_bind, Option.bind_eq_some_iff] at h
      obtain ⟨⟨code, handlers⟩, -, h⟩ := h
      cases h
      exact .inside _ rfl rfl rfl rfl
  | unlock =>
      cases h
      exact .unlock rfl rfl rfl

theorem dispatch_mutexStep {signum : Int} {place : DispatchPlace} {next : Option DispatchPlace}
    (h : akSignalDispatch i s grants signum place = some (next, s')) :
    MutexStep i s s' (.dispatch signum place) (next.map (.dispatch signum)) := by
  cases place with
  | lock =>
      simp only [akSignalDispatch] at h
      split_ifs at h with hfree
      cases h
      exact .lock _ rfl rfl rfl hfree rfl
  | check =>
      simp only [akSignalDispatch] at h
      split_ifs at h <;> cases h <;> exact .inside _ rfl rfl rfl rfl
  | scan iter =>
      simp only [akSignalDispatch, Option.bind_eq_bind, Option.bind_eq_some_iff] at h
      obtain ⟨⟨entry, iter'⟩, -, h⟩ := h
      split at h
      · cases h
        exact .inside _ rfl rfl rfl rfl
      · split at h
        · cases h
          exact .inside _ rfl rfl rfl rfl
        · split_ifs at h <;> cases h <;> exact .inside _ rfl rfl rfl rfl
  | invoke handler iter =>
      cases h
      exact .inside _ rfl rfl rfl rfl
  | unlock =>
      cases h
      exact .unlock rfl rfl rfl

theorem deinit_mutexStep {place : DeinitPlace} {next : Option DeinitPlace}
    (h : akSignalHandlersDeinit i s grants place = some (next, s')) :
    MutexStep i s s' (.deinit place) (next.map .deinit) := by
  cases place with
  | enter =>
      simp only [akSignalHandlersDeinit] at h
      split_ifs at h <;> cases h
      · exact .outside rfl rfl nofun rfl
      · exact .outside rfl rfl (by rintro f ⟨⟩; rfl) rfl
  | lock =>
      simp only [akSignalHandlersDeinit] at h
      split_ifs at h with hfree
      cases h
      exact .lock _ rfl rfl rfl hfree rfl
  | scan iter =>
      simp only [akSignalHandlersDeinit, Option.bind_eq_bind, Option.bind_eq_some_iff] at h
      obtain ⟨⟨entry, iter'⟩, -, h⟩ := h
      split at h <;> cases h <;> exact .inside _ rfl rfl rfl rfl
  | restore p iter =>
      simp only [akSignalHandlersDeinit, Option.bind_eq_bind, Option.bind_eq_some_iff] at h
      obtain ⟨entry, -, old, -, h⟩ := h
      split at h <;> cases h
      · exact .inside _ rfl rfl rfl rfl
      · rename_i hsigaction
        exact .inside _ rfl rfl rfl (sigaction_mutex hsigaction)
  | finish =>
      simp only [akSignalHandlersDeinit, Option.bind_eq_bind, Option.bind_eq_some_iff] at h
      obtain ⟨handlers, -, h⟩ := h
      cases h
      exact .inside _ rfl rfl rfl rfl
  | unlock =>
      cases h
      exact .unlock rfl rfl rfl

theorem frameStep_mutexStep (h : frameStep i s grants frame = some (next, s')) : MutexStep i s s' frame next := by
  cases frame with
  | register signum handler place =>
      obtain ⟨⟨next, s'⟩, hstep, heq⟩ := Option.map_eq_some_iff.mp h
      cases heq
      exact register_mutexStep hstep
  | unregister signum place =>
      obtain ⟨⟨next, s'⟩, hstep, heq⟩ := Option.map_eq_some_iff.mp h
      cases heq
      exact unregister_mutexStep hstep
  | dispatch signum place =>
      obtain ⟨⟨next, s'⟩, hstep, heq⟩ := Option.map_eq_some_iff.mp h
      cases heq
      exact dispatch_mutexStep hstep
  | init =>
      cases h
      exact .outside rfl rfl nofun rfl
  | deinit place =>
      obtain ⟨⟨next, s'⟩, hstep, heq⟩ := Option.map_eq_some_iff.mp h
      cases heq
      exact deinit_mutexStep hstep

end Steps

section Runs

variable [DecidableEq ι] {s s' : Process ι α} {trace events : List (Event ι)} {i : ι}

/-- A thread is once in a call that holds the mutex when it owns it, and never
when it does not. -/
def Owned (s : Process ι α) : Prop :=
  ∀ i, (s.threads i).countP Frame.holds = if s.signals.mutex = some i then 1 else 0

/-- The owner of the mutex runs the call that holds it. -/
def Running (s : Process ι α) : Prop :=
  ∀ i, s.signals.mutex = some i → ∃ frame stack, s.threads i = frame :: stack ∧ Frame.holds frame

theorem Owned.owner (h : Owned s) {frame : Frame} (hframe : frame ∈ s.threads i) (hholds : Frame.holds frame) :
    s.signals.mutex = some i := by
  by_contra hne
  have hcount := h i
  rw [if_neg hne] at hcount
  exact List.countP_eq_zero.mp hcount frame hframe hholds

theorem Owned.update (h : Owned s) {stack : List Frame} {signals : Signals ι α}
    (hi : stack.countP Frame.holds = if signals.mutex = some i then 1 else 0)
    (hother : ∀ j ≠ i, signals.mutex = some j ↔ s.signals.mutex = some j) :
    Owned ⟨signals, Function.update s.threads i stack⟩ := by
  intro j
  by_cases hj : j = i
  · subst j
    simpa only [Function.update_self] using hi
  · have hcount := h j
    simp only [Function.update_of_ne hj, hcount, hother j hj]

theorem Call.frame_holds (call : Call) : Frame.holds call.frame = false := by
  cases call <;> rfl

theorem Owned.step (h : Owned s) (hs : Step s events s') : Owned s' := by
  cases hs with
  | call i call hidle =>
      refine h.update ?_ fun j _ => Iff.rfl
      have hcount := h i
      rw [hidle] at hcount
      rw [List.countP_singleton, Call.frame_holds, ← hcount]
      rfl
  | deliver i signum hinstalled hblocked =>
      refine h.update ?_ fun j _ => Iff.rfl
      rw [List.countP_cons_of_neg Bool.false_ne_true]
      exact h i
  | run i frame stack grants next signals htop hstep =>
      have hcount := h i
      rw [htop, List.countP_cons] at hcount
      cases frameStep_mutexStep hstep with
      | outside hframe hlocks hnext hmutex =>
          refine h.update ?_ fun j _ => by rw [hmutex]
          rw [if_neg (by simp [hframe]), Nat.add_zero] at hcount
          rw [hmutex, List.countP_append, ← hcount]
          have hnone : next.toList.countP Frame.holds = 0 := by
            refine List.countP_eq_zero.mpr fun f hf => ?_
            simp [hnext f (Option.mem_toList.mp hf)]
          rw [hnone, Nat.zero_add]
      | lock f hframe hnext hf hfree hmutex =>
          subst next
          refine h.update ?_ fun j hj => by simp [hmutex, hfree, hj.symm]
          rw [if_neg (by simp [holds_of_locks hframe]), hfree, if_neg (by simp)] at hcount
          rw [hmutex, if_pos rfl, Option.toList_some, List.singleton_append, List.countP_cons_of_pos hf]
          omega
      | inside f hframe hnext hf hmutex =>
          subst next
          refine h.update ?_ fun j _ => by rw [hmutex]
          rw [if_pos hframe] at hcount
          rw [hmutex, Option.toList_some, List.singleton_append, List.countP_cons_of_pos hf]
          exact hcount
      | unlock hframe hnext hmutex =>
          subst next
          have howner : s.signals.mutex = some i := h.owner (by simp [htop]) hframe
          refine h.update ?_ fun j hj => by simp [hmutex, howner, hj.symm]
          rw [if_pos hframe, if_pos howner] at hcount
          rw [hmutex, if_neg (by simp), Option.toList_none, List.nil_append]
          omega

theorem WaitsOnItself.step (h : Owned s) (hw : WaitsOnItself s i) (hs : Step s events s') : WaitsOnItself s' i := by
  obtain ⟨howner, top, rest, htop, hlocks⟩ := hw
  cases hs with
  | call j call hidle =>
      have hne : i ≠ j := by
        rintro rfl
        rw [hidle] at htop
        cases htop
      exact ⟨howner, top, rest, by rw [← htop]; exact Function.update_of_ne hne _ _, hlocks⟩
  | deliver j signum hinstalled hblocked =>
      by_cases hj : i = j
      · subst j
        exact ⟨howner, _, _, Function.update_self _ _ _, rfl⟩
      · exact ⟨howner, top, rest, by rw [← htop]; exact Function.update_of_ne hj _ _, hlocks⟩
  | run j frame stack grants next signals hframe hstep =>
      have hsteps := frameStep_mutexStep hstep
      by_cases hj : i = j
      · subst j
        rw [htop] at hframe
        cases hframe
        cases hsteps with
        | outside _ hnot => exact absurd (hnot.symm.trans hlocks) Bool.false_ne_true
        | lock _ _ _ _ hfree => exact absurd (hfree.symm.trans howner) nofun
        | inside _ hholds => exact absurd ((holds_of_locks hlocks).symm.trans hholds) Bool.false_ne_true
        | unlock hholds => exact absurd ((holds_of_locks hlocks).symm.trans hholds) Bool.false_ne_true
      · have hsame : Function.update s.threads j (next.toList ++ stack) i = top :: rest := by
          rw [Function.update_of_ne hj, htop]
        cases hsteps with
        | outside _ _ _ hmutex => exact ⟨hmutex.trans howner, top, rest, hsame, hlocks⟩
        | lock _ _ _ _ hfree => exact absurd (hfree.symm.trans howner) nofun
        | inside _ _ _ _ hmutex => exact ⟨hmutex.trans howner, top, rest, hsame, hlocks⟩
        | unlock hholds =>
            have howner' : s.signals.mutex = some j := h.owner (by simp [hframe]) hholds
            exact absurd (Option.some_injective _ (howner.symm.trans howner')) hj

theorem Running.step (hr : Running s) (hs : Step s events s')
    (hquiet : ∀ e ∈ events, ¬Event.interrupts e) : Running s' := by
  cases hs with
  | call j call hidle =>
      intro i howner
      obtain ⟨top, rest, htop, hholds⟩ := hr i howner
      have hne : i ≠ j := by
        rintro rfl
        rw [hidle] at htop
        cases htop
      exact ⟨top, rest, by rw [← htop]; exact Function.update_of_ne hne _ _, hholds⟩
  | deliver j signum hinstalled hblocked =>
      intro i howner
      obtain ⟨top, rest, htop, hholds⟩ := hr i howner
      have hne : i ≠ j := by
        rintro rfl
        exact hquiet _ (List.mem_singleton.mpr rfl) (decide_eq_true howner)
      exact ⟨top, rest, by rw [← htop]; exact Function.update_of_ne hne _ _, hholds⟩
  | run j frame stack grants next signals hframe hstep =>
      have hother : ∀ i ≠ j, s.signals.mutex = some i → ∃ top rest,
          Function.update s.threads j (next.toList ++ stack) i = top :: rest ∧ Frame.holds top := by
        intro i hne howner
        rw [Function.update_of_ne hne]
        exact hr i howner
      intro i howner
      cases frameStep_mutexStep hstep with
      | outside hnot _ _ hmutex =>
          have howner' : s.signals.mutex = some i := hmutex.symm.trans howner
          refine hother i ?_ howner'
          rintro rfl
          obtain ⟨top, rest, htop, hholds⟩ := hr i howner'
          rw [hframe] at htop
          cases htop
          exact absurd (hnot.symm.trans hholds) Bool.false_ne_true
      | lock f _ hnext hf _ hmutex =>
          subst next
          cases hmutex.symm.trans howner
          exact ⟨f, stack, Function.update_self _ _ _, hf⟩
      | inside f _ hnext hf hmutex =>
          subst next
          by_cases hij : i = j
          · subst j
            exact ⟨f, stack, Function.update_self _ _ _, hf⟩
          · exact hother i hij (hmutex.symm.trans howner)
      | unlock _ _ hmutex => exact absurd (hmutex.symm.trans howner) nofun

/-- A signal that interrupts a call which holds the mutex waits for it. -/
theorem waits_of_interrupt (hs : Step s events s') (h : ∃ e ∈ events, Event.interrupts e) :
    ∃ i, WaitsOnItself s' i := by
  obtain ⟨e, he, hinterrupts⟩ := h
  cases hs with
  | call | run =>
      cases List.mem_singleton.mp he
      cases hinterrupts
  | deliver i signum hinstalled hblocked =>
      cases List.mem_singleton.mp he
      exact ⟨i, of_decide_eq_true hinterrupts, _, _, Function.update_self _ _ _, rfl⟩

omit [DecidableEq ι] in
theorem Running.not_waits (hr : Running s) : ¬WaitsOnItself s i := by
  rintro ⟨howner, top, rest, htop, hlocks⟩
  obtain ⟨top', rest', htop', hholds⟩ := hr i howner
  rw [htop] at htop'
  cases htop'
  exact absurd ((holds_of_locks hlocks).symm.trans hholds) Bool.false_ne_true

end Runs

theorem step_of_move [DecidableEq α] (s : Process Unit α) (m : Move) (events : List (Event Unit)) (s' : Process Unit α)
    (h : move s m = some (events, s')) : Step s events s' := by
  cases m with
  | call call =>
      rw [move] at h
      split_ifs at h with hidle
      cases h
      exact .call () call hidle
  | run grants =>
      rw [move] at h
      split at h
      · cases h
      · rename_i frame stack htop
        split at h
        · cases h
        · rename_i next signals hstep
          cases h
          exact .run () frame stack grants next signals htop hstep
  | deliver signum =>
      rw [move] at h
      split_ifs at h with hdeliver
      cases h
      exact .deliver () signum hdeliver.1 hdeliver.2

def allGranted : Grants := ⟨true, true, ⟨true, true, true⟩⟩

def installing : List Move := [.call .init, .run allGranted, .call (.register 2 (some 0))] ++
  List.replicate 5 (.run allGranted)

def registering : List Move := installing ++ [.run allGranted, .run allGranted]

end Ak24.SignalDeadlock
