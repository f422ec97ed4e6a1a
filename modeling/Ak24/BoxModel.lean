import Ak24.Monitors

namespace Ak24.BoxModel

open Monitors Transition

variable {ι α : Type}

inductive BoxOp (α : Type)
  | swap (newData : α)
  | get
  | visit
  deriving DecidableEq, Repr

inductive BoxResult (α : Type)
  | swapped (oldData : α)
  | got (data : α)
  | visited (data : α)
  deriving DecidableEq, Repr

inductive BoxLocals (α : Type)
  | swapRead (newData : α)
  | swapWrite (newData oldData : α)
  | getRead
  | visitRead
  | visiting (data : α)
  | unlocking (r : BoxResult α)
  deriving DecidableEq, Repr

def enter : BoxOp α → BoxLocals α
  | .swap newData => .swapRead newData
  | .get => .getRead
  | .visit => .visitRead

def step (data : α) : BoxLocals α → (α × BoxLocals α) ⊕ BoxResult α
  | .swapRead newData => .inl (data, .swapWrite newData data)
  | .swapWrite newData oldData => .inl (newData, .unlocking (.swapped oldData))
  | .getRead => .inl (data, .unlocking (.got data))
  | .visitRead => .inl (data, .visiting data)
  | .visiting visited => .inl (data, .unlocking (.visited visited))
  | .unlocking r => .inr r

def akBox (α : Type) : Monitor α (BoxOp α) (BoxLocals α) (BoxResult α) := ⟨enter, step⟩

abbrev Box (ι α : Type) := System ι α (BoxOp α) (BoxLocals α) (BoxResult α)

def akBoxNew (data : α) : Box ι α := System.start data

def put : Event ι (BoxOp α) (BoxResult α) → Option α
  | .called _ (.swap newData) => some newData
  | _ => none

def took : Event ι (BoxOp α) (BoxResult α) → Option α
  | .returned _ (.swapped oldData) => some oldData
  | _ => none

def BoxResult.seen : BoxResult α → α
  | .swapped oldData => oldData
  | .got data => data
  | .visited data => data

section Sequential

variable {s₀ s s' data : α} {op : BoxOp α} {r : BoxResult α} {log : List (ι × BoxOp α × BoxResult α)}

def putOp : BoxOp α → Option α
  | .swap newData => some newData
  | _ => none

def tookResult : BoxResult α → Option α
  | .swapped oldData => some oldData
  | _ => none

/-- Each call sees the data in the box, and a swap exchanges it for its own. -/
theorem akBox_does (h : (akBox α).Does op s r s') :
    r.seen = s ∧ (putOp op).toList ++ [s] = s' :: (tookResult r).toList := by
  cases op with
  | swap newData =>
      obtain ⟨rfl, rfl⟩ := Monitor.Finishes.inr rfl (Monitor.Finishes.inl rfl (Monitor.Finishes.inl rfl h))
      exact ⟨rfl, rfl⟩
  | get =>
      obtain ⟨rfl, rfl⟩ := Monitor.Finishes.inr rfl (Monitor.Finishes.inl rfl h)
      exact ⟨rfl, rfl⟩
  | visit =>
      obtain ⟨rfl, rfl⟩ := Monitor.Finishes.inr rfl (Monitor.Finishes.inl rfl (Monitor.Finishes.inl rfl h))
      exact ⟨rfl, rfl⟩

theorem history_conserves (h : History (akBox α).Does s₀ log s) :
    (s₀ :: log.filterMap fun e => putOp e.2.1).Perm (s :: log.filterMap fun e => tookResult e.2.2) := by
  induction h with
  | nil => exact List.Perm.refl _
  | @snoc log s s' op r i _ hdoes ih =>
      have hexchange := (akBox_does hdoes).2
      have hput : [(i, op, r)].filterMap (fun e => putOp e.2.1) = (putOp op).toList := by
        cases hop : putOp op <;> simp [hop]
      have htook : [(i, op, r)].filterMap (fun e => tookResult e.2.2) = (tookResult r).toList := by
        cases hr : tookResult r <;> simp [hr]
      rw [List.filterMap_append, List.filterMap_append, hput, htook, ← List.cons_append]
      calc (s₀ :: log.filterMap fun e => putOp e.2.1) ++ (putOp op).toList
          _ |>.Perm ((s :: log.filterMap fun e => tookResult e.2.2) ++ (putOp op).toList) := ih.append_right _
          _ |>.Perm ((log.filterMap fun e => tookResult e.2.2) ++ ((putOp op).toList ++ [s])) := by
            rw [List.cons_append]
            refine (List.perm_append_singleton _ _).symm.trans ?_
            rw [List.append_assoc]
          _ |>.Perm ((log.filterMap fun e => tookResult e.2.2) ++ s' :: (tookResult r).toList) := by rw [hexchange]
          _ |>.Perm (s' :: ((log.filterMap fun e => tookResult e.2.2) ++ (tookResult r).toList)) := List.perm_middle

theorem history_seen (h : History (akBox α).Does s₀ log s) :
    ∀ e ∈ log, e.2.2.seen ∈ s₀ :: log.filterMap fun e => putOp e.2.1 := by
  induction h with
  | nil => exact nofun
  | @snoc log s s' op r i hhistory hdoes ih =>
      have hmem : s ∈ s₀ :: log.filterMap fun e => putOp e.2.1 :=
        (history_conserves hhistory).mem_iff.mpr (List.Mem.head _)
      intro e he
      rw [List.filterMap_append, ← List.cons_append]
      refine List.mem_append_left _ ?_
      rcases List.mem_append.mp he with he | he
      · exact ih e he
      · rw [List.mem_singleton.mp he, (akBox_does hdoes).1]
        exact hmem

theorem filterMap_called (trace : List (Event ι (BoxOp α) (BoxResult α))) :
    (trace.filterMap called).filterMap (fun e => putOp e.2) = trace.filterMap put := by
  rw [List.filterMap_filterMap]
  congr 1
  funext e
  rcases e with ⟨i, _ | _ | _⟩ | ⟨i, _ | _ | _⟩ <;> rfl

theorem filterMap_returned (trace : List (Event ι (BoxOp α) (BoxResult α))) :
    (trace.filterMap returned).filterMap (fun e => tookResult e.2) = trace.filterMap took := by
  rw [List.filterMap_filterMap]
  congr 1
  funext e
  rcases e with ⟨i, _ | _ | _⟩ | ⟨i, _ | _ | _⟩ <;> rfl

def Carries (data : α) : BoxLocals α → Prop
  | .swapWrite _ oldData => data = oldData
  | .visiting visited => data = visited
  | _ => True

theorem carries_of_works {x : α × BoxLocals α}
    (h : Relation.ReflTransGen (akBox α).Works (s₀, (akBox α).enter op) x) : Carries x.1 x.2 := by
  induction h with
  | refl => cases op <;> trivial
  | @tail x y _ hy _ =>
      obtain ⟨data, locals⟩ := x
      cases locals with
      | unlocking r => cases hy
      | _ =>
          cases hy
          trivial

end Sequential

section Runs

variable [DecidableEq ι] {data : α} {box : Box ι α} {trace : List (Event ι (BoxOp α) (BoxResult α))}

/-- However the calls on a box fall together: while a lambda visits the data it
is in the box and no other call is at it, and once all calls have returned what
was put into the box has been taken out once or is in it, and what any call has
seen there had been put into it. -/
theorem box_conserves (data : α) (hrun : Run (akBox α).Step (akBoxNew data) trace box) :
    (∀ i op visited, box.place i = .inside op (.visiting visited) →
      box.shared = visited ∧ ∀ j, (box.place j).Inside → j = i) ∧
    (box.Quiet →
      (data :: trace.filterMap put).Perm (box.shared :: trace.filterMap took) ∧
        ∀ i r, .returned i r ∈ trace → r.seen ∈ data :: trace.filterMap put) := by
  refine ⟨fun i op visited hi => ?_, fun hquiet => ?_⟩
  · obtain ⟨t, -, hmatches⟩ := run_atomic hrun
    exact ⟨carries_of_works (hmatches.works i op _ hi), fun j hj => hmatches.single j i hj (Place.inside_of hi)⟩
  · obtain ⟨log, hhistory, hcalls, hreturns⟩ := run_history hrun hquiet
    have hput : (log.filterMap fun e => putOp e.2.1).Perm (trace.filterMap put) := by
      rw [← filterMap_called]
      refine List.Perm.trans ?_ (hcalls.filterMap fun e => putOp e.2).symm
      rw [List.filterMap_map]
      exact List.Perm.refl _
    have htook : (log.filterMap fun e => tookResult e.2.2).Perm (trace.filterMap took) := by
      rw [← filterMap_returned]
      refine List.Perm.trans ?_ (hreturns.filterMap fun e => tookResult e.2).symm
      rw [List.filterMap_map]
      exact List.Perm.refl _
    refine ⟨((hput.cons data).symm.trans (history_conserves hhistory)).trans (htook.cons _), ?_⟩
    intro i r hr
    have hmem : (i, r) ∈ trace.filterMap returned := List.mem_filterMap.mpr ⟨_, hr, rfl⟩
    obtain ⟨e, he, heq⟩ := List.mem_map.mp (hreturns.mem_iff.mp hmem)
    have hseen := history_seen hhistory e he
    rw [← (hput.cons data).mem_iff, ← (Prod.mk.inj heq).2]
    exact hseen

/-- A swap waits for a visit that has the lock. -/
theorem box_conserves_swapped : ∃ trace box, Run (akBox Nat).Step (akBoxNew 1 : Box Bool Nat) trace box ∧
    trace = [.called true .visit, .called false (.swap 2), .returned true (.visited 1), .returned false (.swapped 1)] ∧
    (1 :: trace.filterMap put).Perm (box.shared :: trace.filterMap took) := by
  have r₁ : Run (akBox Nat).Step (akBoxNew 1 : Box Bool Nat) _ _ := Run.next .start (.call _ true .visit rfl)
  have r₂ := r₁.next (.lock _ true .visit rfl (by rintro (_ | _) <;> exact id))
  have r₃ := (r₂.next (.call _ false (.swap 2) rfl)).next (.work _ true _ _ _ _ rfl rfl)
  have r₄ := (r₃.next (.work _ true _ _ _ _ rfl rfl)).next (.unlock _ true _ _ _ rfl rfl)
  have r₅ := r₄.next (.lock _ false (.swap 2) rfl (by rintro (_ | _) <;> exact id))
  have r₆ := (r₅.next (.work _ false _ _ _ _ rfl rfl)).next (.return _ true _ rfl)
  have r₇ := (r₆.next (.work _ false _ _ _ _ rfl rfl)).next (.unlock _ false _ _ _ rfl rfl)
  have r₈ := r₇.next (.return _ false _ rfl)
  exact ⟨_, _, r₈, rfl, ((box_conserves 1 r₈).2 (by rintro (_ | _) <;> rfl)).1⟩

end Runs

end Ak24.BoxModel
